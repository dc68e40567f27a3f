import LiveValue.Context
import LiveValue.Log.Event

/-!
# Evaluations

An evaluation comes to an answer or a fault, and leaves a history of what happened on the way, in
order: lines of the log, functions that were looked up, functions that were invoked, and notes.
When one evaluation follows another, their histories follow each other; after a fault nothing
follows, unless the evaluation was only attempted. How many notes were taken before is all that an
evaluation knows of the past.
-/

namespace LiveValue

/-- A function that was called, with its arguments and the context it was given. -/
structure Invocation where
  name : String
  args : List Value
  context : Context

/-- Something that happened during an evaluation. -/
inductive Occurrence where
  | logged (line : Line)
  | sought (name : String)
  /-- A host function was told which functions there are. -/
  | listed
  | invoked (invocation : Invocation)
  | noted (note : Note)

namespace Occurrence

def line? : Occurrence → Option Line
  | .logged line => some line
  | _ => none

def sought? : Occurrence → Option String
  | .sought name => some name
  | _ => none

def invocation? : Occurrence → Option Invocation
  | .invoked invocation => some invocation
  | _ => none

def note? : Occurrence → Option Note
  | .noted note => some note
  | _ => none

/-- The occurrence with more blocks of variables around its line. -/
def within (blocks : List Fields) : Occurrence → Occurrence
  | .logged line => .logged (line.within blocks)
  | o => o

@[simp]
theorem within_nil (o : Occurrence) : o.within [] = o := by
  cases o with
  | logged line => rw [within, Line.within_nil]
  | _ => rfl

@[simp]
theorem sought?_within (blocks : List Fields) (o : Occurrence) :
    (o.within blocks).sought? = o.sought? := by
  cases o <;> rfl

@[simp]
theorem invocation?_within (blocks : List Fields) (o : Occurrence) :
    (o.within blocks).invocation? = o.invocation? := by
  cases o <;> rfl

@[simp]
theorem note?_within (blocks : List Fields) (o : Occurrence) :
    (o.within blocks).note? = o.note? := by
  cases o <;> rfl

end Occurrence

/-- A history, the oldest occurrence first. -/
abbrev History := List Occurrence

namespace History

def lines (h : History) : List Line := h.filterMap Occurrence.line?

def sought (h : History) : List String := h.filterMap Occurrence.sought?

def invocations (h : History) : List Invocation := h.filterMap Occurrence.invocation?

def notes (h : History) : List Note := h.filterMap Occurrence.note?

def within (blocks : List Fields) (h : History) : History := h.map (Occurrence.within blocks)

@[simp]
theorem within_nil (h : History) : h.within [] = h := by
  rw [within, funext Occurrence.within_nil, List.map_id']

@[simp]
theorem within_append (blocks : List Fields) (h k : History) :
    within blocks (h ++ k) = h.within blocks ++ k.within blocks :=
  List.map_append

@[simp]
theorem lines_within (blocks : List Fields) (h : History) :
    (h.within blocks).lines = h.lines.map (Line.within blocks) := by
  have hline : Occurrence.line? ∘ Occurrence.within blocks
      = fun o => o.line?.map (Line.within blocks) :=
    funext fun o => by cases o <;> rfl
  rw [lines, lines, within, List.filterMap_map, hline, List.map_filterMap]

@[simp]
theorem sought_within (blocks : List Fields) (h : History) :
    (h.within blocks).sought = h.sought := by
  rw [sought, within, List.filterMap_map, Function.comp_def]
  simp only [Occurrence.sought?_within]
  rfl

@[simp]
theorem invocations_within (blocks : List Fields) (h : History) :
    (h.within blocks).invocations = h.invocations := by
  rw [invocations, within, List.filterMap_map, Function.comp_def]
  simp only [Occurrence.invocation?_within]
  rfl

@[simp]
theorem notes_within (blocks : List Fields) (h : History) :
    (h.within blocks).notes = h.notes := by
  rw [notes, within, List.filterMap_map, Function.comp_def]
  simp only [Occurrence.note?_within]
  rfl

end History

/-- What an evaluation comes to. -/
structure Outcome (α : Type) where
  result : Except Fault α
  history : History

/-- An evaluation, from the number of notes taken before it. -/
def Eval (α : Type) : Type := Nat → Outcome α

namespace Eval

variable {α β γ : Type}

@[ext]
theorem ext {m m' : Eval α} (h : ∀ taken, m taken = m' taken) : m = m' := funext h

protected def pure (a : α) : Eval α := fun _ => ⟨.ok a, []⟩

protected def bind (m : Eval α) (f : α → Eval β) : Eval β := fun taken =>
  match m taken with
  | ⟨.error fault, history⟩ => ⟨.error fault, history⟩
  | ⟨.ok a, history⟩ =>
      let next := f a (taken + history.notes.length)
      ⟨next.result, history ++ next.history⟩

instance : Monad Eval where
  pure := Eval.pure
  bind := Eval.bind

theorem pure_apply (a : α) (taken : Nat) : (pure a : Eval α) taken = ⟨.ok a, []⟩ := rfl

theorem bind_of_error {m : Eval α} {f : α → Eval β} {taken : Nat} {fault : Fault}
    {history : History} (h : m taken = ⟨.error fault, history⟩) :
    (m >>= f) taken = ⟨.error fault, history⟩ := by
  change Eval.bind m f taken = _
  rw [Eval.bind, h]

theorem bind_of_ok {m : Eval α} {f : α → Eval β} {taken : Nat} {a : α} {history : History}
    (h : m taken = ⟨.ok a, history⟩) :
    (m >>= f) taken =
      ⟨(f a (taken + history.notes.length)).result,
        history ++ (f a (taken + history.notes.length)).history⟩ := by
  change Eval.bind m f taken = _
  rw [Eval.bind, h]

theorem apply_eq (m : Eval α) (taken : Nat) :
    (∃ fault history, m taken = ⟨.error fault, history⟩) ∨
      ∃ a history, m taken = ⟨.ok a, history⟩ := by
  rcases h : m taken with ⟨_ | _, history⟩
  · exact .inl ⟨_, _, rfl⟩
  · exact .inr ⟨_, _, rfl⟩

protected theorem bind_assoc (m : Eval α) (f : α → Eval β) (g : β → Eval γ) :
    m >>= f >>= g = m >>= fun a => f a >>= g := by
  ext taken
  rcases m.apply_eq taken with ⟨fault, history, h⟩ | ⟨a, history, h⟩
  · rw [bind_of_error h, bind_of_error (bind_of_error h)]
  · rw [bind_of_ok h]
    rcases (f a).apply_eq (taken + history.notes.length) with
      ⟨fault, later, hf⟩ | ⟨b, later, hf⟩
    · have hmf : (m >>= f) taken = ⟨.error fault, history ++ later⟩ := by rw [bind_of_ok h, hf]
      rw [bind_of_error hmf, bind_of_error hf]
    · have hmf : (m >>= f) taken = ⟨.ok b, history ++ later⟩ := by rw [bind_of_ok h, hf]
      rw [bind_of_ok hmf, bind_of_ok hf]
      simp [History.notes, Nat.add_assoc]

protected theorem id_map (m : Eval α) : id <$> m = m := by
  ext taken
  change Eval.bind m Eval.pure taken = _
  rcases m.apply_eq taken with ⟨fault, history, h⟩ | ⟨a, history, h⟩ <;>
    simp [Eval.bind, Eval.pure, h]

protected theorem pure_bind (a : α) (f : α → Eval β) : pure a >>= f = f a := by
  ext taken
  change Eval.bind (Eval.pure a) f taken = _
  simp [Eval.bind, Eval.pure, History.notes]

instance : LawfulMonad Eval :=
  LawfulMonad.mk' Eval Eval.id_map Eval.pure_bind Eval.bind_assoc

def fail (fault : Fault) : Eval α := fun _ => ⟨.error fault, []⟩

/-- After a fault nothing follows. -/
theorem fail_bind (fault : Fault) (f : α → Eval β) : fail fault >>= f = fail fault := by
  ext taken
  exact bind_of_error rfl

/-- The evaluation that comes to a result. -/
def ofExcept : Except Fault α → Eval α
  | .ok a => pure a
  | .error fault => fail fault

/-- The evaluation in which one thing happens. -/
def emit (o : Occurrence) : Eval Unit := fun _ => ⟨.ok (), [o]⟩

/-- The evaluation that comes to what another one comes to, be it a fault, and goes on. -/
def attempt (m : Eval α) : Eval (Except Fault α) := fun taken =>
  let outcome := m taken
  ⟨.ok outcome.result, outcome.history⟩

def log (event : Event) : Eval Unit := emit (.logged ⟨event, []⟩)

def note (n : Note) : Eval Nat := fun taken => ⟨.ok (taken + 1), [.noted n]⟩

/-- An evaluation inside blocks of variables, the innermost first. -/
def within (blocks : List Fields) (m : Eval α) : Eval α := fun taken =>
  let outcome := m taken
  { outcome with history := outcome.history.within blocks }

@[simp]
theorem within_nil (m : Eval α) : m.within [] = m := by
  ext taken
  rw [within, History.within_nil]

/-- What is done after an attempt, whatever that came to. -/
theorem attempt_bind_apply (m : Eval α) (f : Except Fault α → Eval β) (taken : Nat) :
    (m.attempt >>= f) taken =
      let outcome := m taken
      let next := f outcome.result (taken + outcome.history.notes.length)
      ⟨next.result, outcome.history ++ next.history⟩ :=
  bind_of_ok rfl

end Eval

end LiveValue
