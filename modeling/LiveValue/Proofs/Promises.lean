import LiveValue.Proofs.HostFunction
import LiveValue.Proofs.Termination

/-!
# Promises of procedures

What holds of the values that procedures come to is shown for all of them at once: along its own
course, each procedure relies on what those that it starts give, and gives what it promises itself.
Since every run ends, nothing more is needed. Faults promise nothing, and a promise may be made
under the condition that certain things do not happen on the way.

* `Promise`: what procedures expect, what they give, and what may happen meanwhile;
* `Course.Gives`: a course that comes to a value of a kind, with rules for its parts;
* `Promise.Kept`, `Promise.Kept.perform`: what each course keeps, whole runs keep.
-/

namespace LiveValue

open Template

/-- What procedures are relied on for. -/
structure Promise where
  /-- A procedure keeps the promise where it is started as expected. -/
  expects : Context → Task → Prop
  gives : Task → Value → Prop
  /-- The promise is kept as long as nothing else happens on the way. -/
  allows : Occurrence → Prop
  allows_of_within {blocks : List Fields} {o : Occurrence} : allows (o.within blocks) → allows o

namespace Program

/-- The program comes to a value of a kind, or to a fault, as long as it is answered in certain
ways. -/
def Gives (answers : Request → Value → Prop) (P : Value → Prop) : Program → Prop
  | done value => P value
  | fail _ => True
  | ask _ request next => ∀ answer, (∀ value, answer = .ok value → answers request value) →
      (next answer).Gives answers P
  | record _ next => ∀ taken, (next taken).Gives answers P

variable {answers : Request → Value → Prop} {P Q : Value → Prop}

theorem Gives.mono {program : Program} (h : program.Gives answers P) (hPQ : ∀ v, P v → Q v) :
    program.Gives answers Q := by
  induction program with
  | done value => exact hPQ value h
  | fail fault => trivial
  | ask place request next ih => exact fun answer hanswer => ih answer (h answer hanswer)
  | record note next ih => exact fun taken => ih taken (h taken)

theorem gives_ofExcept {result : Except Fault Value} (h : ∀ v, result = .ok v → P v) :
    (ofExcept result).Gives answers P := by
  cases result with
  | ok v => exact h v rfl
  | error fault => trivial

/-- A program that asks one thing comes to what it is answered. -/
theorem gives_request {place : Place} {r : Request} (h : ∀ v, answers r v → P v) :
    (request place r).Gives answers P :=
  fun _ hanswer => gives_ofExcept fun v hv => h v (hanswer v hv)

theorem gives_withText {text : Except Fault (List Char)} {next : List Char → Program}
    (h : ∀ s, (next s).Gives answers P) : (withText text next).Gives answers P := by
  cases text with
  | ok s => exact h s
  | error fault => trivial

end Program

namespace Course

/-- The course comes to a value of a kind, or to a fault, as long as the tasks that it starts keep a
promise and nothing happens that is not allowed. -/
def Gives (p : Promise) (P : Value → Prop) : Course → Prop
  | done value => P value
  | fail _ => True
  | emit o rest => p.allows o → rest.Gives p P
  | note _ next => ∀ taken, (next taken).Gives p P
  | start ctx task next =>
      ∀ value, (p.expects ctx task → p.gives task value) → (next value).Gives p P
  | attempt ctx _ task next => ∀ answer,
      (∀ value, answer = .ok value → p.expects ctx task → p.gives task value) →
      (next answer).Gives p P

variable {p : Promise} {P : Value → Prop} {ctx : Context}

/-! ## Rules for the parts of a course -/

theorem gives_ofExcept {result : Except Fault Value} (h : ∀ v, result = .ok v → P v) :
    (ofExcept result).Gives p P := by
  cases result with
  | ok v => exact h v rfl
  | error fault => trivial

theorem gives_descend {expression : Option String} {next : Context → Course}
    (h : (next ctx.deeper).Gives p P) : (descend ctx expression next).Gives p P := by
  unfold descend
  split
  · exact fun _ => trivial
  · exact h

theorem gives_lookup {name : String} {next : HostFunction → Course}
    (hnone : P .undefined)
    (h : ∀ f, ctx.registry.get? name = some f → (next f).Gives p P) :
    (lookup ctx name next).Gives p P := by
  intro _
  cases hget : ctx.registry.get? name with
  | none => exact fun _ => hnone
  | some f => exact h f hget

theorem gives_collect {tasks : List Task} {next : List Value → Course}
    (hexpected : ∀ task ∈ tasks, p.expects ctx task)
    (h : ∀ values, List.Forall₂ p.gives tasks values → (next values).Gives p P) :
    (collect ctx tasks next).Gives p P := by
  induction tasks generalizing next with
  | nil => exact h [] .nil
  | cons task rest ih =>
    obtain ⟨hfirst, hrest⟩ := List.forall_mem_cons.1 hexpected
    intro value hvalue
    exact ih hrest fun values hvalues => h (value :: values) (.cons (hvalue hfirst) hvalues)

/-- A host function is answered by the tasks that it asks for. -/
theorem gives_ofProgram {answers : Request → Value → Prop}
    (hanswers : ∀ place request value,
      (p.expects (ctx.placed place) (taskOf request) → p.gives (taskOf request) value) →
      answers request value)
    {program : Program} (h : program.Gives answers P) : (ofProgram ctx program).Gives p P := by
  induction program with
  | done value => exact h
  | fail fault => trivial
  | ask place request next ih =>
    exact fun answer hanswer => ih answer <| h answer fun value hvalue =>
      hanswers place request value (hanswer value hvalue)
  | record note next ih => exact fun taken => ih taken (h taken)

theorem gives_missBrace {template : String} {position : Nat} {rest : Course}
    (h : rest.Gives p P) : (missBrace ctx template position rest).Gives p P := by
  unfold missBrace
  split
  · trivial
  · exact fun _ => h

theorem gives_withText {value : Value} {next : List Char → Course}
    (h : ∀ s, (next s).Gives p P) : (withText value next).Gives p P := by
  unfold withText
  split
  · exact h _
  · trivial

end Course

/-! ## Whole runs -/

namespace Promise

/-- Each procedure that is started as expected gives what it promises. -/
def Kept (p : Promise) : Prop :=
  ∀ ctx task, p.expects ctx task → (task.course ctx).Gives p (p.gives task)

variable {p : Promise}

/-- A course comes to what it gives when all the procedures keep the promise. -/
theorem Kept.of_ends (hkept : p.Kept) {course : Course} {taken : Nat} {o : Outcome Value}
    (h : course.Ends taken o) {P : Value → Prop} (hgives : course.Gives p P)
    (hallowed : ∀ x ∈ o.history, p.allows x) {v : Value} (hv : o.result = .ok v) : P v := by
  induction h generalizing P v with
  | done =>
    cases hv
    exact hgives
  | fail => cases hv
  | emit _ ih =>
    obtain ⟨hfirst, hrest⟩ := List.forall_mem_cons.1 hallowed
    exact ih (hgives hfirst) hrest hv
  | note _ ih => exact ih (hgives _) (List.forall_mem_cons.1 hallowed).2 hv
  | start _ _ ihtask ihnext =>
    obtain ⟨hearlier, hlater⟩ := List.forall_mem_append.1 hallowed
    -- the task comes to what it promises if it was started as expected
    have hvalue := hgives _ fun hexpected => ihtask (hkept _ _ hexpected) hearlier rfl
    exact ihnext hvalue hlater hv
  | stop => cases hv
  | @attempt _ _ _ _ _ _ _ history _ _ _ ihtask ihnext =>
    obtain ⟨hearlier, hlater⟩ := List.forall_mem_append.1 hallowed
    have hinside : ∀ x ∈ history, p.allows x := fun x hx =>
      p.allows_of_within (hearlier _ (List.mem_map_of_mem hx))
    -- what was attempted only promises something if it came to a value
    have hnext := hgives _ fun value hvalue hexpected => ihtask (hkept _ _ hexpected) hinside hvalue
    exact ihnext hnext hlater hv

/-- A run that is started as expected comes to what is promised. -/
theorem Kept.perform (hkept : p.Kept) {ctx : Context} {task : Task} {taken : Nat}
    (hexpected : p.expects ctx task)
    (hallowed : ∀ x ∈ (task.perform ctx taken).history, p.allows x) {v : Value}
    (hv : (task.perform ctx taken).result = .ok v) : p.gives task v :=
  hkept.of_ends (task.ends_perform ctx taken) (hkept ctx task hexpected) hallowed hv

end Promise

end LiveValue
