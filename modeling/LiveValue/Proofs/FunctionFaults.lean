import LiveValue.Proofs.Conversions
import LiveValue.Proofs.HostFunction

/-!
# Faults of functions

A function stops by itself when its program fails, whatever the engine answers to its questions. To
pass on the fault of a question is not to stop by itself.

* `Builtin.fails_of_raises`: over what the built-in functions stop;
* `HostFunction.SparesNesting`: the function leaves it to the engine to say that the limit of the
  depth was met, and to stop then. All built-in and all ready-made functions do.
-/

namespace LiveValue

namespace Program

/-- On some way that the program may go, it stops with the fault by itself. -/
inductive Raises (fault : Fault) : Program → Prop
  | here : Raises fault (.fail fault)
  /-- What the question came to is not the fault itself. -/
  | afterAsk {place : Place} {request : Request} {next : Except Fault Value → Program}
      {answer : Except Fault Value} :
      answer ≠ .error fault → Raises fault (next answer) → Raises fault (.ask place request next)
  | afterRecord {note : Note} {next : Nat → Program} (taken : Nat) :
      Raises fault (next taken) → Raises fault (.record note next)

variable {fault : Fault}

theorem raises_ofExcept {result : Except Fault Value} (h : (ofExcept result).Raises fault) :
    result = .error fault := by
  cases result with
  | ok value => cases h
  | error raised => cases h; rfl

theorem raises_withText {text : Except Fault (List Char)} {next : List Char → Program}
    (h : (withText text next).Raises fault) :
    text = .error fault ∨ ∃ s, text = .ok s ∧ (next s).Raises fault := by
  cases text with
  | ok s => exact .inr ⟨s, rfl, h⟩
  | error raised => cases h; exact .inl rfl

theorem not_raises_done {value : Value} : ¬(done value).Raises fault := nofun

/-- A program that asks one thing leaves every fault to the engine. -/
theorem not_raises_request {place : Place} {r : Request} : ¬(request place r).Raises fault := by
  rintro (_ | ⟨hanswer, h⟩)
  exact hanswer (raises_ofExcept h)

/-- A program that only stops over a text that is too long. -/
theorem raises_text {value : Value} {next : List Char → Program}
    (hnext : ∀ s, ¬(next s).Raises fault) (h : (withText value.text next).Raises fault) :
    fault = .digitLimit ∧ value.HoldsTooLong := by
  rcases raises_withText h with htext | ⟨s, -, hs⟩
  · exact Value.text_eq_error htext
  · exact absurd hs (hnext s)

end Program

/-! ## Built-in functions -/

namespace Moment

/-- The moment lies in the years that have dates. -/
def HasTimestamp (m : Moment) : Prop := 0 ≤ m.instant ∧ m.instant < endOfTime

theorem timestamp_eq_error {m : Moment} {fault : Fault} (h : m.timestamp = .error fault) :
    fault = .outOfRange ∧ ¬m.HasTimestamp := by
  unfold timestamp at h
  split at h
  · cases h
  · next hout =>
    cases h
    exact ⟨rfl, hout⟩

end Moment

namespace Builtin

/-- Over what a built-in function stops by itself when it gets these arguments: it would have to
show an integer of too many digits, or it fails to sum the arguments up. -/
inductive Fails (args : List Value) : String → Fault → Prop
  | concat {arg : Value} : arg ∈ args → arg.HoldsTooLong → Fails args "concat" .digitLimit
  | add {fault : Fault} : Value.SumFails args fault → Fails args "add" fault
  | formatString : (args.headD .undefined).HoldsTooLong → Fails args "formatString" .digitLimit

variable {fault : Fault} {args : List Value} {view : View}

theorem raises_now (h : (now args view).Raises fault) :
    fault = .outOfRange ∧ ¬view.clock.HasTimestamp :=
  Moment.timestamp_eq_error (map_eq_error.1 (Program.raises_ofExcept h))

theorem raises_concat (h : (concat args view).Raises fault) :
    fault = .digitLimit ∧ ∃ arg ∈ args, arg.HoldsTooLong := by
  rcases Program.raises_withText h with htext | ⟨s, -, hs⟩
  · obtain ⟨arg, harg, hshown⟩ := mapM_eq_error (bind_pure_eq_error.1 htext)
    obtain ⟨hfault, hlong⟩ := Value.text_eq_error hshown
    exact ⟨hfault, arg, harg, hlong⟩
  · exact absurd hs Program.not_raises_done

theorem raises_add (h : (add args view).Raises fault) : Value.SumFails args fault :=
  Value.sum_eq_error (map_eq_error.1 (Program.raises_ofExcept h))

theorem raises_formatString (h : (formatString args view).Raises fault) :
    fault = .digitLimit ∧ (args.headD .undefined).HoldsTooLong :=
  Program.raises_text (fun _ => Program.not_raises_request) h

/-- As long as there is a timestamp to tell, the built-in functions stop over nothing else. -/
theorem fails_of_raises {name : String} {f : HostFunction} (hget : table.get? name = some f)
    (hclock : view.clock.HasTimestamp) (h : (f args view).Raises fault) :
    Fails args name fault := by
  have hmem := Entries.mem_of_find? hget
  simp only [table, List.mem_cons, List.not_mem_nil, or_false, Prod.mk.injEq] at hmem
  rcases hmem with ⟨rfl, rfl⟩ | ⟨rfl, rfl⟩ | ⟨rfl, rfl⟩ | ⟨rfl, rfl⟩
  · exact absurd hclock (raises_now h).2
  · obtain ⟨rfl, arg, harg, hlong⟩ := raises_concat h
    exact .concat harg hlong
  · exact .add (raises_add h)
  · obtain ⟨rfl, hlong⟩ := raises_formatString h
    exact .formatString hlong

/-- These are faults of the conversion or the range of a number. -/
theorem Fails.fault_eq {name : String} (h : Fails args name fault) :
    fault = .digitLimit ∨ (fault = .outOfRange ∧ name = "add") := by
  cases h with
  | concat _ _ => exact .inl rfl
  | formatString _ => exact .inl rfl
  | add hsum =>
    cases hsum with
    | numeral _ _ => exact .inl rfl
    | overflow _ _ _ _ => exact .inr ⟨rfl, rfl⟩

end Builtin

/-! ## Functions that leave the depth to the engine -/

/-- The program leaves it to the engine to say that the limit of the depth was met, and stops when
the engine says so. -/
structure Program.SparesNesting (program : Program) : Prop where
  passesOn : program.PassesOn Fault.IsNesting
  raises : ∀ fault, program.Raises fault → ¬fault.IsNesting

/-- Whatever it is given, the function leaves it to the engine to say that the limit was met. -/
def HostFunction.SparesNesting (f : HostFunction) : Prop :=
  ∀ args view, (f args view).SparesNesting

end LiveValue
