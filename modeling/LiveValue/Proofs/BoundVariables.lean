import LiveValue.Log.Bindings
import LiveValue.Proofs.Invariants

/-!
# Bound variables

What variables stand for while a block is open and after it was left, for every library that does
what is documented. Only what each name stands for counts, not how the library holds it. The lines
that an evaluation logs lie inside the blocks that its host functions have opened and inside those
around the evaluation.

* `Log.Binder.Documented.bound_of_settles`: blocks that were left again leave nothing behind;
* `Log.Bindings.documented`: bindings do what is documented;
* `Line.tells`: what a line tells under a name, which is among its fields (`Line.find?_fields`);
* `freedom`: with functions that never bind a variable, no line lies inside a block that does.
-/

namespace LiveValue

/-! ## Entries under keys -/

namespace Entries

variable {κ α : Type} [DecidableEq κ] {key : κ} {l : List (κ × α)}

theorem find?_filter (keep : κ → Bool) (key : κ) (l : List (κ × α)) :
    find? key (l.filter fun entry => keep entry.1) = if keep key then find? key l else none := by
  induction l with
  | nil => simp [find?]
  | cons head rest ih =>
    obtain ⟨k, a⟩ := head
    by_cases hkey : k = key
    · subst hkey
      cases hkeep : keep k <;> simp [find?, hkeep, ih]
    · cases hkeep : keep k <;> simp [find?, hkeep, hkey, ih]

/-- Where no key occurs twice it does not matter from which end an entry is looked for. -/
theorem find?_reverse (h : (l.map Prod.fst).Nodup) : find? key l.reverse = find? key l := by
  induction l with
  | nil => rfl
  | cons head rest ih =>
    obtain ⟨k, a⟩ := head
    simp only [List.map_cons, List.nodup_cons] at h
    rw [List.reverse_cons, find?_append, ih h.2]
    by_cases hkey : k = key
    · subst hkey
      have habsent : find? k rest = none := by
        simpa [← isSome_find?] using h.1
      simp [find?, habsent]
    · simp [find?, hkey]

end Entries

theorem Fields.find?_withDefaults (name : String) (fields defaults : Fields) :
    Entries.find? name (fields.withDefaults defaults)
      = (Entries.find? name fields).or (Entries.find? name defaults) := by
  have hany : (fields.any fun field => field.1 == name) = (Entries.find? name fields).isSome := by
    rw [Bool.eq_iff_iff, Entries.isSome_find?]
    simp
  rw [withDefaults, Entries.find?_append,
    Entries.find?_filter fun name => !fields.any fun field => field.1 == name]
  cases hfound : Entries.find? name fields <;> simp [hany, hfound]

/-! ## Blocks -/

namespace LogVariables

variable {name : String}

theorem enter_of_notMem {fresh : Fields} (h : name ∉ fresh.map Prod.fst) (outer : LogVariables) :
    enter fresh outer name = outer name := by
  have hfresh : Entries.find? name fresh.reverse = none := by
    rw [← Option.not_isSome_iff_eq_none, Entries.isSome_find?, List.map_reverse, List.mem_reverse]
    exact h
  rw [enter, hfresh, Option.none_or]

theorem enterAll_of_forall_notMem {blocks : List Fields}
    (h : ∀ block ∈ blocks, name ∉ block.map Prod.fst) (outer : LogVariables) :
    enterAll blocks outer name = outer name := by
  induction blocks with
  | nil => rfl
  | cons fresh rest ih =>
    obtain ⟨hfresh, hrest⟩ := List.forall_mem_cons.1 h
    exact (enter_of_notMem hfresh _).trans (ih hrest)

end LogVariables

namespace Log.Binder

variable {B : Binder} {b b' ending : B.State} {fresh : Fields}

/-- The second state comes from the first one by blocks that were entered and left again. -/
inductive Settles (B : Binder) : B.State → B.State → Prop
  | refl {b : B.State} : Settles B b b
  | block {b inside b' : B.State} {fresh : Fields} :
      Settles B (B.enter fresh b).1 inside →
      Settles B (B.leave (B.enter fresh b).2 inside) b' → Settles B b b'

def enterAll (B : Binder) (blocks : List Fields) (b : B.State) : B.State :=
  blocks.foldr (fun fresh state => (B.enter fresh state).1) b

namespace Documented

/-- After a block at whose end the same is bound as at its start, the same is bound as before. -/
theorem bound_leave (hB : B.Documented)
    (h : B.bound ending = B.bound (B.enter fresh b).1) :
    B.bound (B.leave (B.enter fresh b).2 ending) = B.bound b := by
  funext name
  by_cases hname : name ∈ fresh.map Prod.fst
  · exact hB.restored b ending hname
  · -- a name that the block did not bind still stands for what it stood for
    rw [hB.untouched b ending hname, h, hB.entered, LogVariables.enter_of_notMem hname]

theorem bound_of_settles (hB : B.Documented) (h : B.Settles b b') : B.bound b' = B.bound b := by
  induction h with
  | refl => rfl
  | block _ _ ihinside ihafter => rw [ihafter, hB.bound_leave ihinside]

theorem bound_enterAll (hB : B.Documented) (blocks : List Fields) (b : B.State) :
    B.bound (B.enterAll blocks b) = LogVariables.enterAll blocks (B.bound b) := by
  induction blocks with
  | nil => rfl
  | cons fresh rest ih =>
    have henter : B.enterAll (fresh :: rest) b = (B.enter fresh (B.enterAll rest b)).1 := rfl
    rw [henter, hB.entered, ih]
    rfl

end Documented

end Log.Binder

namespace Log.Bindings

theorem find?_unset (name : String) (vars : Fields) (names : List String) :
    Entries.find? name (unset vars names)
      = if name ∈ names then none else Entries.find? name vars := by
  rw [unset, Entries.find?_filter fun name => !names.contains name]
  by_cases h : name ∈ names <;> simp [h]

theorem find?_restrict (name : String) (vars : Fields) (names : List String) :
    Entries.find? name (restrict vars names)
      = if name ∈ names then Entries.find? name vars else none := by
  rw [restrict, Entries.find?_filter fun name => names.contains name]
  by_cases h : name ∈ names <;> simp [h]

theorem find?_leave_enter (name : String) (fresh : Fields) (b ending : Bindings) :
    Entries.find? name (leave (enter fresh b).2 ending).vars
      = if name ∈ fresh.map Prod.fst then Entries.find? name b.vars
        else Entries.find? name ending.vars := by
  have hdistinct : ((restrict b.vars (fresh.map Prod.fst)).map Prod.fst).Nodup :=
    b.distinct.sublist (List.filter_sublist.map Prod.fst)
  change Entries.find? name (Entries.writeAll (restrict b.vars (fresh.map Prod.fst))
    (unset ending.vars (fresh.map Prod.fst))) = _
  rw [Entries.find?_writeAll, Entries.find?_reverse hdistinct, find?_restrict, find?_unset]
  by_cases h : name ∈ fresh.map Prod.fst <;> simp [h]

/-- Bindings do what is documented. -/
theorem documented : binder.Documented where
  entered fresh b := funext fun name => Entries.find?_writeAll name fresh b.vars
  restored b ending h := (find?_leave_enter _ _ b ending).trans (if_pos h)
  untouched b ending h := (find?_leave_enter _ _ b ending).trans (if_neg h)

end Log.Bindings

/-! ## Lines -/

/-- What a line says under a name where variables are bound: its event's own field comes first, then
the blocks around it. -/
def Line.tells (around : LogVariables) (line : Line) (name : String) : Option Value :=
  (Entries.find? name line.event.fields).or (LogVariables.enterAll line.blocks around name)

/-- What a line tells by itself is what its fields hold. -/
theorem Line.find?_fields (line : Line) (name : String) :
    Entries.find? name line.fields = line.tells .unbound name := by
  rw [fields, Fields.find?_withDefaults, find?_bound]
  rfl

/-- No block around the line binds the variable. -/
def Line.LeavesFree (label : String) (line : Line) : Prop :=
  ∀ block ∈ line.blocks, label ∉ block.map Prod.fst

theorem History.lines_append (h k : History) : lines (h ++ k) = h.lines ++ k.lines :=
  List.filterMap_append

/-- No line that the evaluation logs lies inside a block of its own that binds the variable. -/
def Eval.LeavesFree {α : Type} (label : String) (m : Eval α) : Prop :=
  ∀ taken, ∀ line ∈ (m taken).history.lines, line.LeavesFree label

namespace Eval.LeavesFree

variable {α β : Type} {label : String}

theorem of_no_lines {m : Eval α} (h : ∀ taken, (m taken).history.lines = []) :
    m.LeavesFree label := by
  intro taken line hline
  rw [h taken] at hline
  cases hline

theorem log (event : Event) : (Eval.log event).LeavesFree label := by
  intro taken line hline
  obtain rfl : line = ⟨event, []⟩ := List.mem_singleton.1 hline
  exact nofun

theorem bind {m : Eval α} {f : α → Eval β} (hm : m.LeavesFree label)
    (hf : ∀ a, (f a).LeavesFree label) : (m >>= f).LeavesFree label := by
  intro taken line hline
  have hfirst := hm taken
  rcases m.apply_eq taken with ⟨fault, history, h⟩ | ⟨a, history, h⟩
  · rw [Eval.bind_of_error h] at hline
    rw [h] at hfirst
    exact hfirst line hline
  · rw [Eval.bind_of_ok h, History.lines_append, List.mem_append] at hline
    rw [h] at hfirst
    exact hline.elim (hfirst line) (hf a _ line)

theorem ask {m : Eval α} {f : Except Fault α → Eval β} {blocks : List Fields}
    (hblocks : ∀ block ∈ blocks, label ∉ block.map Prod.fst) (hm : m.LeavesFree label)
    (hf : ∀ result, (f result).LeavesFree label) :
    ((m.within blocks).attempt >>= f).LeavesFree label := by
  refine bind (fun taken line hline => ?_) hf
  change line ∈ ((m taken).history.within blocks).lines at hline
  rw [History.lines_within, List.mem_map] at hline
  obtain ⟨own, hown, rfl⟩ := hline
  exact List.forall_mem_append.2 ⟨hm taken own hown, hblocks⟩

end Eval.LeavesFree

/-- With functions that never bind the variable, it is left free around all lines. -/
def freedom (label : String) : Invariant where
  holds := Eval.LeavesFree label
  admits := Program.LeavesFree label
  holds_pure _ := .of_no_lines fun _ => rfl
  holds_fail _ := .of_no_lines fun _ => rfl
  holds_bind := .bind
  holds_emit h := .of_no_lines fun _ => List.filterMap_cons_none h
  holds_log _ := .log _
  holds_refuse _ _ := .bind (.log _) fun _ => .of_no_lines fun _ => rfl
  admits_builtin := Builtin.leavesFree label
  admits_ask h := h.2
  holds_ask h := .ask h.1
  admits_record h := h
  holds_record _ hk := .bind (.of_no_lines fun _ => rfl) hk

end LiveValue
