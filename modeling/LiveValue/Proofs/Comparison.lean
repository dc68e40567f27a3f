import LiveValue.Proofs.Simulation

/-!
# Comparisons of runs

Two runs are often the same but for a few things: one of them may stop where the other one goes on,
and some of what happens on the way is left out of account or looks different. A `Comparison` says
which outcomes of the first run excuse every difference and how the occurrences of both are looked
at. Evaluations put together from parts that compare well compare well.

* `Comparison.congruence`: runs that compare well, as a `Congruence`;
* `Comparison.Compares.ask`: what follows a question to the engine, whatever comes of it;
* `Comparison.Compares.unseen_left`, `Comparison.Compares.unseen_right`: what is not looked at may
  happen on one side alone;
* `Comparison.Compares.lookup`: looking up a name that stands for the same function on both sides;
* `Comparison.Compares.descend`: going down from the same level on both sides.
-/

namespace LiveValue

def Outcome.fault? {α : Type} (o : Outcome α) : Option Fault :=
  match o.result with
  | .ok _ => none
  | .error fault => some fault

theorem Outcome.result_of_fault? {α : Type} {o : Outcome α} {fault : Fault}
    (h : o.fault? = some fault) : o.result = .error fault := by
  unfold fault? at h
  split at h
  · cases h
  · next hresult =>
    cases h
    exact hresult

theorem Eval.emit_bind_apply {α : Type} {o : Occurrence} (hnote : o.note? = none) (m : Eval α)
    (taken : Nat) :
    (Eval.emit o >>= fun _ => m) taken = ⟨(m taken).result, o :: (m taken).history⟩ := by
  have hemit : Eval.emit o taken = ⟨.ok (), [o]⟩ := rfl
  have hnotes : History.notes [o] = [] := by
    rw [History.notes, List.filterMap_cons_none hnote, List.filterMap_nil]
  rw [Eval.bind_of_ok hemit, hnotes]
  rfl

/-- How a first run is compared with a second one.

* `excuses`: with such a fault, or without one, and such a history, the first run excuses the second
  one from everything; this does not change when the run is a part of a longer one;
* `view`, `view'`: what is seen of an occurrence in the first and in the second run; every note is
  seen.

Blocks of variables around a run change neither. -/
structure Comparison where
  excuses : Option Fault → History → Prop
  view : Occurrence → Option Occurrence
  view' : Occurrence → Option Occurrence
  excuses_append {earlier later : History} {fault? : Option Fault} :
    excuses none earlier → excuses fault? (earlier ++ later)
  excuses_prepend {earlier later : History} {fault? : Option Fault} :
    excuses fault? later → excuses fault? (earlier ++ later)
  excuses_within (blocks : List Fields) {history : History} {fault? : Option Fault} :
    excuses fault? history → excuses fault? (history.within blocks)
  note?_view (o : Occurrence) : (view o).bind Occurrence.note? = o.note?
  note?_view' (o : Occurrence) : (view' o).bind Occurrence.note? = o.note?
  view_within (blocks : List Fields) (o : Occurrence) :
    view (o.within blocks) = (view o).map (Occurrence.within blocks)
  view'_within (blocks : List Fields) (o : Occurrence) :
    view' (o.within blocks) = (view' o).map (Occurrence.within blocks)

namespace Comparison

variable (K : Comparison) {α β : Type}

/-- The outcomes of two runs that compare well. -/
def Agrees (o o' : Outcome α) : Prop :=
  K.excuses o.fault? o.history ∨
    o'.result = o.result ∧ o'.history.filterMap K.view' = o.history.filterMap K.view

/-- Runs that compare well, whatever number of notes was taken before. -/
def Compares (m m' : Eval α) : Prop := ∀ taken, K.Agrees (m taken) (m' taken)

/-- An excuse for a run that stops is one for a run that is caught and goes on, too. -/
def Lasting : Prop :=
  ∀ (fault? : Option Fault) (history : History), K.excuses fault? history → K.excuses none history

variable {K}

/-- What is read off what is seen of the two runs is the same. -/
theorem filterMap_eq {γ : Type} {read : Occurrence → Option γ} {h h' : History}
    (hread : ∀ o, (K.view o).bind read = read o) (hread' : ∀ o, (K.view' o).bind read = read o)
    (hview : h'.filterMap K.view' = h.filterMap K.view) : h'.filterMap read = h.filterMap read := by
  have hsame := congrArg (List.filterMap read) hview
  rwa [List.filterMap_filterMap, List.filterMap_filterMap, funext hread, funext hread'] at hsame

theorem notes_eq {h h' : History} (hview : h'.filterMap K.view' = h.filterMap K.view) :
    h'.notes = h.notes :=
  filterMap_eq K.note?_view K.note?_view' hview

namespace Compares

/-- Evaluations that follow ones that compare well: an excuse in the first part is an excuse for the
whole, and so is one in the second part. -/
theorem bind {m m' : Eval α} {f f' : α → Eval β} (hm : K.Compares m m')
    (hf : ∀ a, K.Compares (f a) (f' a)) : K.Compares (m >>= f) (m' >>= f') := by
  intro taken
  have hfirst := hm taken
  rcases h' : m' taken with ⟨result', history'⟩
  rcases m.apply_eq taken with ⟨fault, history, h⟩ | ⟨a, history, h⟩
  · rw [h, h'] at hfirst
    rw [Eval.bind_of_error h]
    rcases hfirst with hexcused | ⟨hresult, hview⟩
    · exact .inl hexcused
    · obtain rfl : result' = .error fault := hresult
      rw [Eval.bind_of_error h']
      exact .inr ⟨rfl, hview⟩
  · rw [h, h'] at hfirst
    rw [Eval.bind_of_ok h]
    rcases hfirst with hexcused | ⟨hresult, hview⟩
    · exact .inl (K.excuses_append hexcused)
    · obtain rfl : result' = .ok a := hresult
      -- the same notes were seen, so both go on from the same number of them
      rw [Eval.bind_of_ok h', notes_eq hview]
      rcases hf a (taken + history.notes.length) with hexcused | ⟨hresult, hlater⟩
      · exact .inl (K.excuses_prepend hexcused)
      · refine .inr ⟨hresult, ?_⟩
        rw [List.filterMap_append, List.filterMap_append, hview, hlater]

theorem pure (a : α) : K.Compares (Pure.pure a) (Pure.pure a) := fun _ => .inr ⟨rfl, rfl⟩

theorem fail (fault : Fault) : K.Compares (Eval.fail fault : Eval α) (Eval.fail fault) := fun _ =>
  .inr ⟨rfl, rfl⟩

theorem within {m m' : Eval α} (h : K.Compares m m') (blocks : List Fields) :
    K.Compares (m.within blocks) (m'.within blocks) := by
  intro taken
  have hseen {view : Occurrence → Option Occurrence} (hview : ∀ o : Occurrence,
      view (o.within blocks) = (view o).map (Occurrence.within blocks)) (history : History) :
      (history.within blocks).filterMap view
        = (history.filterMap view).map (Occurrence.within blocks) := by
    rw [History.within, List.filterMap_map, List.map_filterMap]
    exact congrArg (List.filterMap · history) (funext hview)
  rcases h taken with hexcused | ⟨hresult, hview⟩
  · exact .inl (K.excuses_within blocks hexcused)
  · refine .inr ⟨hresult, ?_⟩
    change ((m' taken).history.within blocks).filterMap K.view'
      = ((m taken).history.within blocks).filterMap K.view
    rw [hseen (K.view'_within blocks), hseen (K.view_within blocks), hview]

/-- Where excuses last, runs compare well whether their faults are caught or not. -/
theorem attempt {m m' : Eval α} (h : K.Compares m m') (hlasting : K.Lasting) :
    K.Compares m.attempt m'.attempt := by
  intro taken
  rcases h taken with hexcused | ⟨hresult, hview⟩
  · exact .inl (hlasting _ _ hexcused)
  · exact .inr ⟨congrArg Except.ok hresult, hview⟩

/-- A question to the engine, inside blocks of variables, and what is made of the answer. -/
theorem ask {m m' : Eval α} {f f' : Except Fault α → Eval β} (h : K.Compares m m')
    (hlasting : K.Lasting) (blocks : List Fields)
    (hf : ∀ result, K.Compares (f result) (f' result)) :
    K.Compares ((m.within blocks).attempt >>= f) ((m'.within blocks).attempt >>= f') :=
  ((h.within blocks).attempt hlasting).bind hf

theorem emit {o o' : Occurrence} (h : K.view' o' = K.view o) :
    K.Compares (Eval.emit o) (Eval.emit o') := by
  intro taken
  refine .inr ⟨rfl, ?_⟩
  change List.filterMap K.view' [o'] = List.filterMap K.view [o]
  rw [List.filterMap_cons, List.filterMap_cons, h]
  rfl

/-- Where both runs are seen in the same way, every evaluation compares well with itself. -/
theorem refl (h : K.view' = K.view) (m : Eval α) : K.Compares m m := by
  intro taken
  refine .inr ⟨rfl, ?_⟩
  rw [h]

/-- Something that is not looked at happens first in the first run alone. -/
theorem unseen_left {o : Occurrence} {m m' : Eval α} (ho : K.view o = none)
    (h : K.Compares m m') : K.Compares (Eval.emit o >>= fun _ => m) m' := by
  intro taken
  have hnote : o.note? = none := by rw [← K.note?_view, ho]; rfl
  rw [Eval.emit_bind_apply hnote]
  rcases h taken with hexcused | ⟨hresult, hview⟩
  · have hwhole : K.excuses (m taken).fault? ([o] ++ (m taken).history) :=
      K.excuses_prepend hexcused
    exact .inl hwhole
  · refine .inr ⟨hresult, ?_⟩
    rw [List.filterMap_cons_none ho]
    exact hview

/-- Something that is not looked at happens first in the second run alone. -/
theorem unseen_right {o : Occurrence} {m m' : Eval α} (ho : K.view' o = none)
    (h : K.Compares m m') : K.Compares m (Eval.emit o >>= fun _ => m') := by
  intro taken
  have hnote : o.note? = none := by rw [← K.note?_view', ho]; rfl
  rw [Eval.emit_bind_apply hnote]
  rcases h taken with hexcused | ⟨hresult, hview⟩
  · exact .inl hexcused
  · refine .inr ⟨hresult, ?_⟩
    rw [List.filterMap_cons_none ho]
    exact hview

/-- Under a name that stands for the same function in both contexts, or for none, both runs find the
same. -/
theorem lookup {c c' : Context} {name : String}
    (hview : ∀ o : Occurrence, o.invocation? = none → K.view' o = K.view o)
    (hsame : c'.registry.get? name = c.registry.get? name)
    {k k' : Option HostFunction → Eval α} (hnone : K.Compares (k none) (k' none))
    (hsome : ∀ f, c.registry.get? name = some f → K.Compares (k (some f)) (k' (some f))) :
    K.Compares (c.lookup name >>= k) (c'.lookup name >>= k') := by
  rw [Context.lookup_bind, Context.lookup_bind, hsame]
  refine bind (emit (hview _ rfl)) fun _ => ?_
  cases hget : c.registry.get? name with
  | none => exact bind (emit (hview _ rfl)) fun _ => hnone
  | some f => exact hsome f hget

/-- Where the host gave the same functions, both runs are told the same about them. -/
theorem functions {c c' : Context}
    (hview : ∀ o : Occurrence, o.invocation? = none → K.view' o = K.view o)
    (hsame : c'.functions = c.functions) : K.Compares c.functionsAnswer c'.functionsAnswer := by
  have hregistry : c'.registry = c.registry := by rw [Context.registry, Context.registry, hsame]
  unfold Context.functionsAnswer
  rw [hregistry, hsame]
  exact bind (emit (hview _ rfl)) fun _ => pure _

/-- At the same level under the same limit, both runs may go down or both are stopped. -/
theorem descend {c c' : Context} (expression : Option String)
    (hview : ∀ o : Occurrence, o.invocation? = none → K.view' o = K.view o)
    (hdepth : c'.depth = c.depth) (hlimit : c'.limit = c.limit) {k k' : Context → Eval α}
    (hk : c.depth < c.limit → K.Compares (k c.deeper) (k' c'.deeper)) :
    K.Compares (c.descend expression >>= k) (c'.descend expression >>= k') := by
  rcases Int.lt_or_le c.depth c.limit with hlt | hle
  · have hlt' : c'.depth < c'.limit := by rwa [hdepth, hlimit]
    rw [Context.descend_bind_of_lt hlt, Context.descend_bind_of_lt hlt']
    exact hk hlt
  · have hle' : c'.limit ≤ c'.depth := by rwa [hdepth, hlimit]
    rw [Context.descend_bind_of_le hle, Context.descend_bind_of_le hle', Context.refuse,
      Context.refuse, hdepth, hlimit]
    exact bind (emit (hview _ rfl)) fun _ => fail _

end Compares

variable (K) in
/-- Runs that compare well, put together, compare well. -/
def congruence : Congruence where
  sim := K.Compares
  sim_pure := .pure
  sim_fail := .fail
  sim_bind := .bind

end Comparison

end LiveValue
