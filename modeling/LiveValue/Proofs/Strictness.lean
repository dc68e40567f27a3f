import LiveValue.Proofs.HostFunction
import LiveValue.Proofs.Simulation

/-!
# Strict and tolerant templates

A strict run is a tolerant run that stops at the first placeholder that is never closed. Up to that
point the two runs do the same, and if the tolerant one never comes to such a point they do the
same throughout. This holds for templates inside templates, for templates that come from data, and
for host functions that go back into the engine, as long as these do not read the settings.

Host functions can tell strict templates in two ways: off the settings in their view, and by the
fault that only strict templates stop with. A function that catches this fault goes on with a strict
run that has stopped; even so the two runs do the same up to the first such placeholder.

* `strict_stops_at_missing_brace`: the two runs compared.
-/

namespace LiveValue

open Template

/-! ## Missing braces in a history -/

namespace Occurrence

/-- The position of a placeholder that is never closed, if that is what is reported. -/
def missingBrace? : Occurrence → Option Nat
  | .logged ⟨.unterminatedPlaceholder position, _⟩ => some position
  | _ => none

/-- The occurrence under other strictness: only the context of an invocation tells the settings. -/
def withStrict (strict : Bool) : Occurrence → Occurrence
  | .invoked ⟨name, args, ctx⟩ =>
      .invoked ⟨name, args, { ctx with settings.strictTemplates := strict }⟩
  | o => o

end Occurrence

namespace History

/-- The position in the first report of a placeholder that is never closed. -/
def firstMissingBrace? (h : History) : Option Nat := h.findSome? Occurrence.missingBrace?

def withStrict (strict : Bool) (h : History) : History := h.map (Occurrence.withStrict strict)

@[simp]
theorem withStrict_append (strict : Bool) (h k : History) :
    withStrict strict (h ++ k) = withStrict strict h ++ withStrict strict k :=
  List.map_append

@[simp]
theorem notes_withStrict (strict : Bool) (h : History) : (h.withStrict strict).notes = h.notes := by
  have hnote : Occurrence.note? ∘ Occurrence.withStrict strict = Occurrence.note? :=
    funext fun o => by cases o <;> rfl
  rw [notes, withStrict, List.filterMap_map, hnote]
  rfl

@[simp]
theorem firstMissingBrace?_append (h k : History) :
    firstMissingBrace? (h ++ k) = (firstMissingBrace? h).or (firstMissingBrace? k) :=
  List.findSome?_append

/-- A report that nothing of its kind precedes is the first one. -/
theorem firstMissingBrace?_of_none {before after : History} {position : Nat} {blocks : List Fields}
    (h : before.firstMissingBrace? = none) :
    firstMissingBrace? (before ++ .logged ⟨.unterminatedPlaceholder position, blocks⟩ :: after)
      = some position := by
  rw [firstMissingBrace?_append, h]
  rfl

theorem firstMissingBrace?_within (blocks : List Fields) (h : History) :
    (h.within blocks).firstMissingBrace? = h.firstMissingBrace? := by
  have hmissing : Occurrence.missingBrace? ∘ Occurrence.within blocks = Occurrence.missingBrace? :=
    funext fun o => by
      cases o with
      | logged line => obtain ⟨event, _⟩ := line; cases event <;> rfl
      | _ => rfl
  rw [firstMissingBrace?, within, List.findSome?_map, hmissing]
  rfl

theorem within_withStrict (strict : Bool) (blocks : List Fields) (h : History) :
    (h.withStrict strict).within blocks = (h.within blocks).withStrict strict := by
  rw [within, withStrict, withStrict, within, List.map_map, List.map_map]
  exact List.map_congr_left fun o _ => by cases o <;> rfl

end History

/-- What follows an evaluation only adds to its history. -/
theorem Eval.history_bind {α β : Type} (m : Eval α) (f : α → Eval β) (taken : Nat) :
    ∃ later, ((m >>= f) taken).history = (m taken).history ++ later := by
  rcases m.apply_eq taken with ⟨fault, history, h⟩ | ⟨a, history, h⟩
  · rw [Eval.bind_of_error h, h]
    exact ⟨[], (List.append_nil _).symm⟩
  · rw [Eval.bind_of_ok h, h]
    exact ⟨_, rfl⟩

/-! ## Outcomes compared -/

/-- The same in three shapes: nothing was missing; or the tolerant history splits at the first
report, where the strict run stopped; or the fault was caught there, which is only to be reckoned
with if not all functions pass it on. -/
inductive CutShort {α : Type} (passing : Prop) : Outcome α → Outcome α → Prop
  | whole {result : Except Fault α} {history : History} :
      history.firstMissingBrace? = none →
      CutShort passing ⟨result, history⟩ ⟨result, history.withStrict true⟩
  | cut {result : Except Fault α} {before after : History} {template : String} {position : Nat}
      {blocks : List Fields} :
      before.firstMissingBrace? = none → OpensAt template position →
      CutShort passing
        ⟨result, before ++ .logged ⟨.unterminatedPlaceholder position, blocks⟩ :: after⟩
        ⟨.error (.unterminated template position), before.withStrict true⟩
  | caught {result result' : Except Fault α} {before after later : History} {position : Nat}
      {blocks : List Fields} :
      ¬passing → before.firstMissingBrace? = none →
      CutShort passing
        ⟨result, before ++ .logged ⟨.unterminatedPlaceholder position, blocks⟩ :: after⟩
        ⟨result', before.withStrict true ++ later⟩

namespace CutShort

variable {α β : Type} {passing : Prop}

theorem same {o o' : Outcome α} (h : CutShort passing o o')
    (hnone : o.history.firstMissingBrace? = none) :
    o'.result = o.result ∧ o'.history = o.history.withStrict true := by
  cases h with
  | whole _ => exact ⟨rfl, rfl⟩
  | cut hbefore _ =>
    rw [History.firstMissingBrace?_of_none hbefore] at hnone
    cases hnone
  | caught _ hbefore =>
    rw [History.firstMissingBrace?_of_none hbefore] at hnone
    cases hnone

/-- Where a fault was caught already, nothing more has to be shown. -/
theorem bind_caught {result result' : Except Fault α} {before after later : History}
    {position : Nat} {blocks : List Fields} (hcaught : ¬passing)
    (hbefore : before.firstMissingBrace? = none) {m m' : Eval α} {f f' : α → Eval β} {taken : Nat}
    (hm : m taken
      = ⟨result, before ++ .logged ⟨.unterminatedPlaceholder position, blocks⟩ :: after⟩)
    (hm' : m' taken = ⟨result', before.withStrict true ++ later⟩) :
    CutShort passing ((m >>= f) taken) ((m' >>= f') taken) := by
  obtain ⟨more, hmore⟩ := Eval.history_bind m f taken
  obtain ⟨more', hmore'⟩ := Eval.history_bind m' f' taken
  rcases h : (m >>= f) taken with ⟨ending, history⟩
  rcases h' : (m' >>= f') taken with ⟨ending', history'⟩
  rw [h, hm, List.append_assoc, List.cons_append] at hmore
  rw [h', hm', List.append_assoc] at hmore'
  subst hmore hmore'
  exact caught hcaught hbefore

/-- Something happens first in both runs in which nothing is reported. -/
theorem prepend {o o' : Outcome α} (h : CutShort passing o o') {earlier : History}
    (hnone : earlier.firstMissingBrace? = none) :
    CutShort passing ⟨o.result, earlier ++ o.history⟩
      ⟨o'.result, earlier.withStrict true ++ o'.history⟩ := by
  have happend {later : History} (hlater : later.firstMissingBrace? = none) :
      History.firstMissingBrace? (earlier ++ later) = none := by
    rw [History.firstMissingBrace?_append, hnone, hlater]
    rfl
  cases h with
  | whole hlater =>
    rw [← History.withStrict_append]
    exact whole (happend hlater)
  | cut hlater hopens =>
    rw [← History.withStrict_append, ← List.append_assoc]
    exact cut (happend hlater) hopens
  | caught hcaught hlater =>
    rw [← List.append_assoc, ← List.append_assoc, ← History.withStrict_append]
    exact caught hcaught (happend hlater)

/-- A run that follows a run: what is cut short stays so, since nothing follows a fault. -/
theorem bind {m m' : Eval α} {f f' : α → Eval β}
    (hm : ∀ taken, CutShort passing (m taken) (m' taken))
    (hf : ∀ a taken, CutShort passing (f a taken) (f' a taken)) (taken : Nat) :
    CutShort passing ((m >>= f) taken) ((m' >>= f') taken) := by
  have hcut := hm taken
  generalize hfirst : m taken = first at hcut
  generalize hfirst' : m' taken = first' at hcut
  cases hcut with
  | @whole result history hnone =>
    cases result with
    | error fault =>
      rw [Eval.bind_of_error hfirst, Eval.bind_of_error hfirst']
      exact whole hnone
    | ok a =>
      rw [Eval.bind_of_ok hfirst, Eval.bind_of_ok hfirst', History.notes_withStrict]
      exact (hf a _).prepend hnone
  | @cut result before after template position blocks hbefore hopens =>
    rw [Eval.bind_of_error hfirst']
    cases result with
    | error fault =>
      rw [Eval.bind_of_error hfirst]
      exact cut hbefore hopens
    | ok a =>
      rw [Eval.bind_of_ok hfirst, List.append_assoc, List.cons_append]
      exact cut hbefore hopens
  | caught hcaught hbefore => exact bind_caught hcaught hbefore hfirst hfirst'

theorem within {o o' : Outcome α} (h : CutShort passing o o') (blocks : List Fields) :
    CutShort passing ⟨o.result, o.history.within blocks⟩ ⟨o'.result, o'.history.within blocks⟩ := by
  cases h with
  | whole hnone =>
    rw [History.within_withStrict]
    exact whole (by rwa [History.firstMissingBrace?_within])
  | cut hbefore hopens =>
    rw [History.within_append, History.within_withStrict]
    exact cut (by rwa [History.firstMissingBrace?_within]) hopens
  | caught hcaught hbefore =>
    rw [History.within_append, History.within_append, History.within_withStrict]
    exact caught hcaught (by rwa [History.firstMissingBrace?_within])

/-- A program that asks for what was cut short is itself cut short, if it passes the fault on. -/
theorem ask {c c' : Context} {place : Place} {request : Request}
    {next : Except Fault Value → Program} {m m' : Eval Value}
    (hpasses : passing → (Program.ask place request next).PassesOn Fault.IsUnterminated)
    (hm : ∀ taken, CutShort passing (m taken) (m' taken))
    (hnext : ∀ result taken, CutShort passing (c.engine.run c (next result) taken)
      (c'.engine.run c' (next result) taken)) (taken : Nat) :
    CutShort passing
      (((m.within place.blocks).attempt >>= fun result => c.engine.run c (next result)) taken)
      (((m'.within place.blocks).attempt >>= fun result =>
        c'.engine.run c' (next result)) taken) := by
  have hcut := (hm taken).within place.blocks
  have hfirst : (m.within place.blocks).attempt taken
      = ⟨.ok (m taken).result, (m taken).history.within place.blocks⟩ := rfl
  have hfirst' : (m'.within place.blocks).attempt taken
      = ⟨.ok (m' taken).result, (m' taken).history.within place.blocks⟩ := rfl
  generalize (m taken).result = result at hcut hfirst
  generalize (m taken).history.within place.blocks = history at hcut hfirst
  generalize (m' taken).result = result' at hcut hfirst'
  generalize (m' taken).history.within place.blocks = history' at hcut hfirst'
  cases hcut with
  | whole hnone =>
    rw [Eval.bind_of_ok hfirst, Eval.bind_of_ok hfirst', History.notes_withStrict]
    exact (hnext result _).prepend hnone
  | @cut _ before after template position blocks hbefore hopens =>
    by_cases hpassing : passing
    · -- the program stops with the fault that its question stopped with
      have hfail : next (.error (.unterminated template position))
          = .fail (.unterminated template position) := (hpasses hpassing).1 _ trivial
      rw [Eval.bind_of_ok hfirst, Eval.bind_of_ok hfirst', hfail, List.append_assoc,
        List.cons_append]
      exact (List.append_nil (before.withStrict true)).symm ▸ cut hbefore hopens
    · rw [← List.append_nil (History.withStrict _ _)] at hfirst'
      exact bind_caught hpassing hbefore hfirst hfirst'
  | caught hcaught hbefore => exact bind_caught hcaught hbefore hfirst hfirst'

theorem emit {o : Occurrence} (h : o.missingBrace? = none) (taken : Nat) :
    CutShort passing (Eval.emit o taken) (Eval.emit (o.withStrict true) taken) := by
  have hnone : History.firstMissingBrace? [o] = none := by simp [History.firstMissingBrace?, h]
  exact whole hnone

theorem ofExcept (result : Except Fault α) (taken : Nat) :
    CutShort passing (Eval.ofExcept result taken) (Eval.ofExcept result taken) := by
  cases result <;> exact whole rfl

end CutShort

/-! ## The two runs -/

def Context.withStrict (strict : Bool) (ctx : Context) : Context :=
  { ctx with settings.strictTemplates := strict }

/-- The second context is strict, the first tolerant, and nothing else tells them apart. -/
structure StrictTwin (passing : Prop) (c c' : Context) : Prop where
  tolerant : c.settings.strictTemplates = false
  eq : c' = c.withStrict true
  blind : c.functions.All HostFunction.IgnoresSettings
  passes : passing → c.functions.All (HostFunction.PassesOn Fault.IsUnterminated)

namespace StrictTwin

variable {passing : Prop} {c c' : Context}

theorem missBrace (h : StrictTwin passing c c') {template : String} {position : Nat}
    (hopens : OpensAt template position) (taken : Nat) :
    CutShort passing (Engine.missBrace c template position taken)
      (Engine.missBrace c' template position taken) := by
  obtain ⟨htolerant, rfl, -, -⟩ := h
  unfold Engine.missBrace
  rw [htolerant]
  have hnone : History.firstMissingBrace? [] = none := rfl
  exact .cut hnone hopens

theorem descend (h : StrictTwin passing c c') (expression : Option String)
    {k k' : Context → Eval Value}
    (hk : c.depth < c.limit → StrictTwin passing c.deeper c'.deeper →
      ∀ taken, CutShort passing (k c.deeper taken) (k' c'.deeper taken))
    (taken : Nat) :
    CutShort passing ((c.descend expression >>= k) taken)
      ((c'.descend expression >>= k') taken) := by
  obtain ⟨htolerant, rfl, hf, hpasses⟩ := h
  rcases Int.lt_or_le c.depth c.limit with hlt | hle
  · have hlt' : (c.withStrict true).depth < (c.withStrict true).limit := hlt
    rw [Context.descend_bind_of_lt hlt, Context.descend_bind_of_lt hlt']
    exact hk hlt ⟨htolerant, rfl, hf, hpasses⟩ taken
  · have hle' : (c.withStrict true).limit ≤ (c.withStrict true).depth := hle
    rw [Context.descend_bind_of_le hle, Context.descend_bind_of_le hle']
    exact CutShort.bind (CutShort.emit rfl) (fun _ _ => .whole rfl) taken

theorem lookup (h : StrictTwin passing c c') (name : String)
    {k k' : Option HostFunction → Eval Value}
    (hnone : ∀ taken, CutShort passing (k none taken) (k' none taken))
    (hsome : ∀ f : HostFunction,
      (∀ args, f args c.toView = f args c'.toView ∧
        (passing → (f args c.toView).PassesOn Fault.IsUnterminated)) →
      ∀ taken, CutShort passing (k (some f) taken) (k' (some f) taken))
    (taken : Nat) :
    CutShort passing ((c.lookup name >>= k) taken) ((c'.lookup name >>= k') taken) := by
  obtain ⟨-, rfl, hf, hpasses⟩ := h
  have hsame : (c.withStrict true).registry.get? name = c.registry.get? name := rfl
  rw [Context.lookup_bind, Context.lookup_bind, hsame]
  refine CutShort.bind (CutShort.emit rfl) (fun _ => ?_) taken
  cases hget : c.registry.get? name with
  | none => exact CutShort.bind (CutShort.emit rfl) fun _ => hnone
  | some f =>
    have hblind := Context.of_get?_registry hf Builtin.ignoresSettings hget
    refine hsome f fun args => ⟨(hblind args c.toView _).symm, fun hpassing => ?_⟩
    exact Context.of_get?_registry (hpasses hpassing) (Builtin.passesOn _) hget args c.toView

end StrictTwin

end LiveValue
