import LiveValue.Proofs.Concatenation
import LiveValue.Proofs.FunctionFaults
import LiveValue.Proofs.Refusals
import LiveValue.Proofs.Termination

/-!
# The guard of the depth

Every function is invoked in a context that lies below the one in which the run began, not deeper
than the limit, and otherwise the same but for scopes and variables that functions asked for. Where
the limit is met, one warning is logged, the fault says the same as the warning, and nothing comes
after it. This last part functions can spoil: one that raises such a fault by itself stops the run
without a warning, and one that catches it may meet the limit a second time.

* `Task.keeps`: what every procedure of the engine does by itself;
* `Course.Ends.keeps`: what follows for a run as a whole;
* `guard_kept`: the contexts of a run, and its end at the limit;
* `guard_misled`: functions that spoil the end.
-/

namespace LiveValue

/-! ## What a function does of its own accord -/

namespace Program

/-- On some way that the program may go, it asks for something in the scope. -/
inductive AsksIn (scope : Value) : Program → Prop
  | here {blocks : List Fields} {request : Request} {next : Except Fault Value → Program} :
      AsksIn scope (.ask ⟨some scope, blocks⟩ request next)
  | afterAsk {place : Place} {request : Request} {next : Except Fault Value → Program}
      (answer : Except Fault Value) :
      AsksIn scope (next answer) → AsksIn scope (.ask place request next)
  | afterRecord {note : Note} {next : Nat → Program} (taken : Nat) :
      AsksIn scope (next taken) → AsksIn scope (.record note next)

end Program

namespace Invocation

/-- The function that is invoked may ask for something in the scope. -/
def AsksIn (i : Invocation) (scope : Value) : Prop :=
  ∃ f, i.context.registry.get? i.name = some f ∧ (f i.args i.context.toView).AsksIn scope

/-- The function that is invoked leaves it to the engine to say that the limit was met. -/
def SparesNesting (i : Invocation) : Prop :=
  ∀ f, i.context.registry.get? i.name = some f → (f i.args i.context.toView).SparesNesting

/-- The invocation was made below a context, within its limit and with everything else the same,
the scope and what is bound aside. -/
structure Below (ctx : Context) (i : Invocation) : Prop where
  depth_lt : ctx.depth < i.context.depth
  depth_le : i.context.depth ≤ ctx.limit
  same : i.context = { ctx with
    depth := i.context.depth, scope := i.context.scope, bound := i.context.bound }

end Invocation

theorem History.invocations_append (h k : History) :
    invocations (h ++ k) = h.invocations ++ k.invocations :=
  List.filterMap_append

/-! ## What a course keeps to -/

/-- The contexts in which a course in a context may start a task, when some functions have been
invoked: the context itself, the one below it, and that one at a place that a function asked from. -/
inductive Context.Hands (ctx : Context) (before : List Invocation) : Context → Prop
  | same : Hands ctx before ctx
  | deeper : ctx.depth < ctx.limit → Hands ctx before ctx.deeper
  | placed {place : Place} {i : Invocation} :
      ctx.depth < ctx.limit → i ∈ before → i.context = ctx.deeper →
      (∀ scope, place.scope = some scope → i.AsksIn scope) →
      Hands ctx before (ctx.deeper.placed place)

/-- The engine starts such tasks itself; a mapping is only resolved from outside. -/
def Task.IsInner : Task → Prop
  | resolveMapping _ => False
  | _ => True

namespace Course

/-- A course in a context keeps to the guard, when it has invoked some functions before: it invokes
functions one level down, starts inner tasks in contexts that it may hand on, and stops with a fault
of nesting only where its context is at the limit, right behind the warning, or where it passes on
the fault of a task. One of the functions may do otherwise, and only a function attempts a task. -/
inductive Keeps (ctx : Context) : List Invocation → Course → Prop
  | done {before : List Invocation} {value : Value} : Keeps ctx before (done value)
  | fail {before : List Invocation} {fault : Fault} :
      (fault.IsNesting → ∃ i ∈ before, ¬i.SparesNesting) → Keeps ctx before (fail fault)
  | refused {before : List Invocation} {expression : Option String} :
      ctx.limit ≤ ctx.depth →
      Keeps ctx before (emit (.logged ⟨.nestingExceeded (ctx.depth + 1) ctx.limit expression, []⟩)
        (fail (.nesting (ctx.depth + 1) ctx.limit expression)))
  | emit {before : List Invocation} {o : Occurrence} {rest : Course} :
      o.invocation? = none → History.nestingWarnings [o] = [] → Keeps ctx before rest →
      Keeps ctx before (emit o rest)
  | invoked {before : List Invocation} {i : Invocation} {rest : Course} :
      ctx.depth < ctx.limit → i.context = ctx.deeper → Keeps ctx (before ++ [i]) rest →
      Keeps ctx before (.emit (.invoked i) rest)
  | note {before : List Invocation} {n : Note} {next : Nat → Course} :
      (∀ taken, Keeps ctx before (next taken)) → Keeps ctx before (note n next)
  | start {before : List Invocation} {c : Context} {task : Task} {next : Value → Course} :
      ctx.Hands before c → task.IsInner → (∀ value, Keeps ctx before (next value)) →
      Keeps ctx before (start c task next)
  | attempt {before : List Invocation} {c : Context} {blocks : List Fields} {task : Task}
      {next : Except Fault Value → Course} :
      ctx.Hands before c → task.IsInner →
      (∀ answer, (∀ fault, answer = .error fault → next answer ≠ .fail fault) →
        Keeps ctx before (next answer)) →
      (∀ fault, fault.IsNesting → next (.error fault) = .fail fault ∨
        ∃ i ∈ before, ¬i.SparesNesting) →
      Keeps ctx before (attempt c blocks task next)

variable {ctx : Context} {before : List Invocation}

theorem keeps_digitLimit {fault : Fault} (h : fault = .digitLimit) :
    (Course.fail fault).Keeps ctx before := by
  rw [h]
  exact .fail False.elim

theorem keeps_ofExcept {result : Except Fault Value}
    (h : ∀ fault, result = .error fault → fault = .digitLimit) :
    (ofExcept result).Keeps ctx before := by
  cases result with
  | ok value => exact .done
  | error fault => exact keeps_digitLimit (h fault rfl)

theorem keeps_data (c : Context) (path : String) :
    (ofExcept (Path.resolve c.dataModel c.scope path)).Keeps ctx before :=
  keeps_ofExcept fun _ h => (Path.resolve_eq_error h).1

theorem keeps_literalValue (text : String) :
    (ofExcept (Template.Argument.literalValue text)).Keeps ctx before :=
  keeps_ofExcept fun _ h => (Template.Argument.literalValue_eq_error h).1

theorem keeps_descend {expression : Option String} {next : Context → Course}
    (h : ctx.depth < ctx.limit → (next ctx.deeper).Keeps ctx before) :
    (descend ctx expression next).Keeps ctx before := by
  unfold descend
  split
  · exact .refused (by omega)
  · exact h (by omega)

theorem keeps_lookup {c : Context} {name : String} {next : HostFunction → Course}
    (h : ∀ f, c.registry.get? name = some f → (next f).Keeps ctx before) :
    (lookup c name next).Keeps ctx before := by
  refine .emit rfl rfl ?_
  cases hget : c.registry.get? name with
  | some f => exact h f hget
  | none => exact .emit rfl rfl .done

theorem keeps_collect {c : Context} (hc : ctx.Hands before c) {tasks : List Task}
    (hinner : ∀ task ∈ tasks, task.IsInner) {next : List Value → Course}
    (h : ∀ values, (next values).Keeps ctx before) : (collect c tasks next).Keeps ctx before := by
  induction tasks generalizing next with
  | nil => exact h []
  | cons task rest ih =>
    obtain ⟨htask, hrest⟩ := List.forall_mem_cons.1 hinner
    exact .start hc htask fun value => ih hrest fun values => h (value :: values)

/-- A program asks where its function was invoked, or in a scope that it asks for. -/
theorem keeps_ofProgram (hlt : ctx.depth < ctx.limit) {i : Invocation} (hi : i ∈ before)
    (hcontext : i.context = ctx.deeper) {program : Program}
    (hasks : ∀ scope, program.AsksIn scope → i.AsksIn scope)
    (hspares : i.SparesNesting → program.SparesNesting) :
    (ofProgram ctx.deeper program).Keeps ctx before := by
  induction program with
  | done value => exact .done
  | fail fault =>
    exact .fail fun hnesting => ⟨i, hi, fun h => (hspares h).raises fault .here hnesting⟩
  | ask place request next ih =>
    have hhands : ctx.Hands before (ctx.deeper.placed place) := by
      refine .placed hlt hi hcontext fun scope hscope => hasks scope ?_
      obtain ⟨_, blocks⟩ := place
      subst hscope
      exact .here
    have hinner : (taskOf request).IsInner := by cases request <;> trivial
    refine .attempt hhands hinner (fun answer hgoes => ?_) fun fault hnesting => ?_
    · refine ih answer (fun scope h => hasks scope (.afterAsk answer h)) fun h => ?_
      refine ⟨(hspares h).passesOn.2 answer, fun fault hraises hnesting => ?_⟩
      refine (hspares h).raises fault (.afterAsk ?_ hraises) hnesting
      rintro rfl
      refine hgoes fault rfl ?_
      rw [(hspares h).passesOn.1 fault hnesting]
      rfl
    · by_cases h : i.SparesNesting
      · refine .inl ?_
        rw [(hspares h).passesOn.1 fault hnesting]
        rfl
      · exact .inr ⟨i, hi, h⟩
  | record n next ih =>
    refine .note fun taken =>
      ih taken (fun scope h => hasks scope (.afterRecord taken h)) fun h => ?_
    exact ⟨(hspares h).passesOn taken, fun fault hraises =>
      (hspares h).raises fault (.afterRecord taken hraises)⟩

theorem keeps_invoke (hlt : ctx.depth < ctx.limit) {name : String} {f : HostFunction}
    (hf : ctx.deeper.registry.get? name = some f) (args : List Value) :
    (invoke ctx.deeper name f args).Keeps ctx before := by
  have hmem : (⟨name, args, ctx.deeper⟩ : Invocation) ∈ before ++ [⟨name, args, ctx.deeper⟩] :=
    List.mem_append_right _ List.mem_cons_self
  refine .invoked hlt rfl (keeps_ofProgram hlt hmem rfl ?_ ?_)
  · exact fun scope h => ⟨f, hf, h⟩
  · exact fun h => h f hf

theorem keeps_missBrace {c : Context} {template : String} {position : Nat} {rest : Course}
    (h : rest.Keeps ctx before) : (missBrace c template position rest).Keeps ctx before := by
  unfold missBrace
  split
  · exact .fail False.elim
  · exact .emit rfl rfl h

theorem keeps_withText {value : Value} {next : List Char → Course}
    (h : ∀ s, (next s).Keeps ctx before) : (withText value next).Keeps ctx before := by
  unfold withText
  cases htext : value.text with
  | ok s => exact h s
  | error fault => exact keeps_digitLimit (Value.text_eq_error htext).1

theorem keeps_ofExpression (hlt : ctx.depth < ctx.limit) (expression : Template.Expression) :
    (ofExpression ctx.deeper expression).Keeps ctx before := by
  cases expression with
  | empty => exact .done
  | absolute path => exact keeps_data _ path
  | relative path => exact keeps_data _ path
  | call source name args =>
    have hinner : ∀ task ∈ args.map Task.argument, task.IsInner :=
      List.forall_mem_map.2 fun _ _ => trivial
    exact keeps_collect (.deeper hlt) hinner fun values => keeps_lookup fun f hf =>
      keeps_invoke hlt hf values

end Course

namespace Task

open Course Template

variable {ctx : Context}

theorem keeps_expand (template : String) (position : Nat) (rest shown : List Char) :
    ((expand template position rest shown).course ctx).Keeps ctx [] := by
  fun_cases Token.tokenize rest with
  | case1 => exact .done
  | case2 rest => exact .start .same trivial fun _ => .done
  | case3 rest =>
    have hshow : (showPlaceholder ctx template position rest shown).Keeps ctx [] :=
      .start .same trivial fun value => keeps_withText fun s => .start .same trivial fun _ => .done
    rw [course_placeholder]
    split
    · exact hshow
    · exact keeps_missBrace hshow
  | case4 c rest hopening hplaceholder =>
    rw [course]
    · exact .start .same trivial fun _ => .done
    · exact hopening
    · exact hplaceholder

/-- Every procedure keeps to the guard, in whatever context. -/
theorem keeps (ctx : Context) (task : Task) : (task.course ctx).Keeps ctx [] := by
  cases task with
  | resolve value =>
    rw [course]
    split
    · exact .done
    · exact keeps_data ctx _
    · exact .start .same trivial fun _ => .done
  | call c =>
    rw [course]
    refine keeps_descend fun hlt => keeps_lookup fun f hf => ?_
    have hinner : ∀ task ∈ c.args.map resolve, task.IsInner :=
      List.forall_mem_map.2 fun _ _ => trivial
    exact keeps_collect (.deeper hlt) hinner fun values => keeps_invoke hlt hf values
  | evaluate text =>
    rw [course]
    exact keeps_descend fun hlt => keeps_ofExpression hlt _
  | argument raw =>
    rw [course]
    split
    · exact .start .same trivial fun _ => .done
    · refine .start .same trivial fun found => ?_
      split
      · exact keeps_literalValue _
      · exact .done
    · exact keeps_literalValue _
  | format template => exact .start .same trivial fun _ => .done
  | expand template position rest shown => exact keeps_expand template position rest shown
  | resolveMapping value =>
    cases value with
    | map entries =>
      have hinner : ∀ task ∈ entries.map fun entry => resolve entry.2, task.IsInner :=
        List.forall_mem_map.2 fun _ _ => trivial
      exact keeps_collect .same hinner fun values => .done
    | _ => exact .fail False.elim
  | findFunction name =>
    refine .emit rfl rfl ?_
    cases ctx.registry.get? name with
    | some f => exact .done
    | none => exact .emit rfl rfl .done
  | listFunctions => exact .emit rfl rfl .done

end Task

/-! ## What a run keeps to -/

namespace Context

variable {ctx c : Context}

/-- The scope of an invocation is that of the context, or a function asked for it that was invoked
before on a level further up. -/
def Scopes (ctx : Context) (before : List Invocation) (i : Invocation) : Prop :=
  i.context.scope = ctx.scope ∨
    ∃ j ∈ before, j.context.depth < i.context.depth ∧ j.AsksIn i.context.scope

/-- Each of the invocations was made below the context and in a scope that was to be had then. -/
def Permits (ctx : Context) : List Invocation → List Invocation → Prop
  | _, [] => True
  | before, i :: rest =>
      i.Below ctx ∧ ctx.Scopes before i ∧ ctx.Permits (before ++ [i]) rest

namespace Hands

variable {before : List Invocation}

theorem mono {more : List Invocation} (hsub : before ⊆ more) (h : ctx.Hands before c) :
    ctx.Hands more c := by
  cases h with
  | same => exact .same
  | deeper hlt => exact .deeper hlt
  | placed hlt hi hcontext hasks => exact .placed hlt (hsub hi) hcontext hasks

theorem limit_eq (h : ctx.Hands before c) : c.limit = ctx.limit := by
  cases h <;> rfl

theorem depth_le_limit (h : ctx.Hands before c) (hle : ctx.depth ≤ ctx.limit) :
    c.depth ≤ c.limit := by
  cases h with
  | same => exact hle
  | deeper hlt => exact hlt
  | placed hlt _ _ _ => exact hlt

theorem below {i : Invocation} (h : ctx.Hands before c) (hi : i.Below c) : i.Below ctx := by
  obtain ⟨hlt, hle, hsame⟩ := hi
  cases h with
  | same => exact ⟨hlt, hle, hsame⟩
  | deeper hdepth => exact ⟨Int.lt_trans (Int.lt_succ _) hlt, hle, hsame⟩
  | placed hdepth _ _ _ => exact ⟨Int.lt_trans (Int.lt_succ _) hlt, hle, hsame⟩

theorem scopes {inner : List Invocation} {i : Invocation} (h : ctx.Hands before c)
    (hsub : inner ⊆ before) (hi : i.Below c) (hscope : c.Scopes inner i) :
    ctx.Scopes before i := by
  rcases hscope with hsame | ⟨j, hj, hdepth, hasks⟩
  · cases h with
    | same => exact .inl hsame
    | deeper _ => exact .inl hsame
    | @placed place k _ hk hcontext hasks =>
      obtain ⟨_ | scope, blocks⟩ := place
      · exact .inl hsame
      · obtain rfl : i.context.scope = scope := hsame
        refine .inr ⟨k, hk, ?_, hasks _ rfl⟩
        rw [hcontext]
        exact hi.depth_lt
  · exact .inr ⟨j, hsub hj, hdepth, hasks⟩

/-- What is permitted in a context that is handed on is permitted above it, too. -/
theorem permits {inner invocations : List Invocation} (h : ctx.Hands before c)
    (hsub : inner ⊆ before) (hc : c.Permits inner invocations) :
    ctx.Permits before invocations := by
  induction invocations generalizing inner before with
  | nil => trivial
  | cons i rest ih =>
    obtain ⟨hbelow, hscope, hrest⟩ := hc
    refine ⟨h.below hbelow, h.scopes hsub hbelow hscope, ?_⟩
    refine ih (h.mono (List.subset_append_left ..)) (List.append_subset.2 ⟨?_, ?_⟩) hrest
    · exact List.subset_append_of_subset_left _ hsub
    · exact List.subset_append_right ..

end Hands

theorem Permits.append {before first others : List Invocation} (h : ctx.Permits before first)
    (h' : ctx.Permits before others) : ctx.Permits before (first ++ others) := by
  induction first generalizing before with
  | nil => exact h'
  | cons i rest ih =>
    obtain ⟨hbelow, hscope, hrest⟩ := h
    refine ⟨hbelow, hscope, ih hrest ?_⟩
    exact Hands.same.permits (List.subset_append_left ..) h'

theorem Permits.split {before earlier later : List Invocation} {i : Invocation}
    (h : ctx.Permits before (earlier ++ i :: later)) :
    i.Below ctx ∧ ctx.Scopes (before ++ earlier) i := by
  induction earlier generalizing before with
  | nil =>
    rw [List.append_nil]
    exact ⟨h.1, h.2.1⟩
  | cons j rest ih =>
    have hlater := ih h.2.2
    rwa [List.append_assoc] at hlater

end Context

namespace Outcome

variable {α : Type}

/-- The run met the limit: it logged one warning, at its very end, and stopped with the same fault. -/
inductive MeetsLimit (limit : Int) : Outcome α → Prop
  | intro {earlier : History} {expression : Option String} {blocks : List Fields} :
      earlier.nestingWarnings = [] →
      MeetsLimit limit ⟨.error (.nesting (limit + 1) limit expression),
        earlier ++ [.logged ⟨.nestingExceeded (limit + 1) limit expression, blocks⟩]⟩

/-- The run did not meet the limit: it logged no warning, and did not stop with a fault of nesting. -/
structure MissesLimit (o : Outcome α) : Prop where
  silent : o.history.nestingWarnings = []
  other : ∀ fault, o.result = .error fault → ¬fault.IsNesting

/-- A run from a context keeps to the guard, when some functions were invoked before. -/
structure Keeps (ctx : Context) (before : List Invocation) (o : Outcome α) : Prop where
  invoked : ctx.Permits before o.history.invocations
  ending : (∀ i ∈ before ++ o.history.invocations, i.SparesNesting) →
    o.MissesLimit ∨ o.MeetsLimit ctx.limit

variable {ctx c : Context} {before : List Invocation}

theorem MeetsLimit.prepend {limit : Int} {result : Except Fault α} {history : History}
    (h : MeetsLimit limit ⟨result, history⟩) {earlier : History}
    (hquiet : earlier.nestingWarnings = []) : MeetsLimit limit ⟨result, earlier ++ history⟩ := by
  cases h with
  | intro hbefore =>
    rw [← List.append_assoc]
    exact .intro (by rw [History.nestingWarnings_append, hquiet, hbefore]; rfl)

theorem MeetsLimit.not_ok {limit : Int} {a : α} {history : History} :
    ¬MeetsLimit limit ⟨.ok a, history⟩ := nofun

theorem MeetsLimit.exists_expression {limit : Int} {o : Outcome α} (h : o.MeetsLimit limit) :
    ∃ expression, o.result = .error (.nesting (limit + 1) limit expression) := by
  cases h with
  | intro _ => exact ⟨_, rfl⟩

/-- A run inside blocks of variables keeps to the guard as it does outside. -/
theorem Keeps.within {o : Outcome α} (h : o.Keeps ctx before) (blocks : List Fields) :
    Keeps ctx before ⟨o.result, o.history.within blocks⟩ := by
  obtain ⟨result, history⟩ := o
  refine ⟨by rw [History.invocations_within]; exact h.invoked, fun hspare => ?_⟩
  rw [History.invocations_within] at hspare
  rcases h.ending hspare with ⟨hsilent, hother⟩ | hmeets
  · refine .inl ⟨?_, hother⟩
    rw [History.nestingWarnings_within, hsilent]
    rfl
  · cases hmeets with
    | intro hquiet =>
      rw [History.within_append]
      exact .inr (.intro (by rw [History.nestingWarnings_within, hquiet]; rfl))

/-- A run from a context that is handed on, as a part of the run from above. -/
theorem Keeps.above {o : Outcome α} (hc : ctx.Hands before c) (h : o.Keeps c []) :
    o.Keeps ctx before := by
  refine ⟨hc.permits (List.nil_subset _) h.invoked, fun hspare => ?_⟩
  rcases h.ending fun i hi => hspare i (List.mem_append_right _ hi) with hmisses | hmeets
  · exact .inl hmisses
  · rw [hc.limit_eq] at hmeets
    exact .inr hmeets

/-- A run and what follows it, if nothing follows where the limit was met. -/
theorem Keeps.append {α β : Type} {answer : Except Fault α} {earlier later : History}
    {result : Except Fault β} (h : Keeps ctx before ⟨answer, earlier⟩)
    (hgoes : (∀ i ∈ before, i.SparesNesting) → ¬MeetsLimit ctx.limit ⟨answer, earlier⟩)
    (hlater : Keeps ctx before ⟨result, later⟩) :
    Keeps ctx before ⟨result, earlier ++ later⟩ := by
  have hinvocations := History.invocations_append earlier later
  refine ⟨?_, fun hspare => ?_⟩
  · rw [hinvocations]
    exact h.invoked.append hlater.invoked
  · rw [hinvocations] at hspare
    have hbefore : ∀ i ∈ before, i.SparesNesting :=
      fun i hi => hspare i (List.mem_append_left _ hi)
    have hfirst : ∀ i ∈ before ++ earlier.invocations, i.SparesNesting :=
      fun i hi => hspare i <| by
        rw [← List.append_assoc]
        exact List.mem_append_left _ hi
    have hsecond : ∀ i ∈ before ++ later.invocations, i.SparesNesting := by
      refine List.forall_mem_append.2 ⟨hbefore, fun i hi => ?_⟩
      exact hspare i (List.mem_append_right _ (List.mem_append_right _ hi))
    have hquiet : earlier.nestingWarnings = [] :=
      ((h.ending hfirst).resolve_right (hgoes hbefore)).silent
    rcases hlater.ending hsecond with ⟨hsilent, hother⟩ | hmeets
    · refine .inl ⟨?_, hother⟩
      rw [History.nestingWarnings_append, hquiet, hsilent]
      rfl
    · exact .inr (hmeets.prepend hquiet)

/-- Something that is neither an invocation nor a warning happens first. -/
theorem Keeps.cons {result : Except Fault α} {o : Occurrence} {history : History}
    (hinvocation : o.invocation? = none) (hquiet : History.nestingWarnings [o] = [])
    (h : Keeps ctx before ⟨result, history⟩) : Keeps ctx before ⟨result, o :: history⟩ := by
  have hfirst : Keeps ctx before ⟨.ok (), [o]⟩ := by
    have hnone : History.invocations [o] = [] := by
      rw [History.invocations, List.filterMap_cons_none hinvocation, List.filterMap_nil]
    refine ⟨?_, fun _ => .inl ⟨hquiet, fun fault hfault => ?_⟩⟩
    · rw [hnone]
      trivial
    · cases hfault
  exact hfirst.append (fun _ => MeetsLimit.not_ok) h

/-- A function is invoked one level down first. -/
theorem Keeps.invoke {result : Except Fault α} {i : Invocation} {history : History}
    (hlt : ctx.depth < ctx.limit) (hcontext : i.context = ctx.deeper)
    (h : Keeps ctx (before ++ [i]) ⟨result, history⟩) :
    Keeps ctx before ⟨result, .invoked i :: history⟩ := by
  have hbelow : i.Below ctx := by
    refine ⟨?_, ?_, ?_⟩
    · rw [hcontext]
      exact Int.lt_succ _
    · rw [hcontext]
      exact hlt
    · rw [hcontext]
      rfl
  refine ⟨⟨hbelow, .inl (by rw [hcontext]; rfl), h.invoked⟩, fun hspare => ?_⟩
  have hquiet : History.nestingWarnings [.invoked i] = [] := rfl
  rcases h.ending (by rwa [List.append_assoc]) with ⟨hsilent, hother⟩ | hmeets
  · exact .inl ⟨hsilent, hother⟩
  · exact .inr (hmeets.prepend hquiet)

end Outcome

/-- A course that keeps to the guard comes to an end that keeps to it. -/
theorem Course.Ends.keeps {course : Course} {taken : Nat} {o : Outcome Value}
    (h : course.Ends taken o) {ctx : Context} {before : List Invocation}
    (hle : ctx.depth ≤ ctx.limit) (hk : course.Keeps ctx before) : o.Keeps ctx before := by
  induction h generalizing ctx before with
  | done => exact ⟨trivial, fun _ => .inl ⟨rfl, nofun⟩⟩
  | fail =>
    cases hk with
    | fail hspares =>
      refine ⟨trivial, fun hspare => .inl ⟨rfl, fun fault hfault hnesting => ?_⟩⟩
      cases hfault
      obtain ⟨i, hi, hnot⟩ := hspares hnesting
      exact hnot (hspare i (List.mem_append_left _ hi))
  | emit hrest ih =>
    cases hk with
    | refused hfull =>
      cases hrest
      -- the context is not beyond the limit, so it stands right at it
      have hdepth : ctx.depth = ctx.limit := by omega
      rw [hdepth]
      have hquiet : History.nestingWarnings [] = [] := rfl
      exact ⟨trivial, fun _ => .inr (.intro hquiet)⟩
    | emit hinvocation hquiet hk => exact (ih hle hk).cons hinvocation hquiet
    | invoked hlt hcontext hk => exact (ih hle hk).invoke hlt hcontext
  | note _ ih =>
    cases hk with
    | note hk => exact (ih hle (hk _)).cons rfl rfl
  | start _ _ ihtask ihnext =>
    cases hk with
    | start hhands _ hk =>
      -- a task keeps to the guard of its own context, whatever its course has invoked before
      have htask := ihtask (hhands.depth_le_limit hle) (Task.keeps _ _)
      exact (htask.above hhands).append (fun _ => Outcome.MeetsLimit.not_ok) (ihnext hle (hk _))
  | stop _ ih =>
    cases hk with
    | start hhands _ hk =>
      exact (ih (hhands.depth_le_limit hle) (Task.keeps _ _)).above hhands
  | @attempt c blocks task next taken answer result history later _ hnext ihtask ihnext =>
    cases hk with
    | attempt hhands _ hk hpasses =>
      have htask := ((ihtask (hhands.depth_le_limit hle) (Task.keeps _ _)).above hhands).within blocks
      by_cases hgoes : ∀ fault, answer = .error fault → next answer ≠ .fail fault
      · refine htask.append (fun hspare hmeets => ?_) (ihnext hle (hk answer hgoes))
        obtain ⟨expression, hanswer⟩ := hmeets.exists_expression
        obtain rfl : answer = _ := hanswer
        rcases hpasses (.nesting ..) trivial with hfail | ⟨i, hi, hnot⟩
        · exact hgoes _ rfl hfail
        · exact hnot (hspare i hi)
      · -- the program stops with the fault of the task, and nothing comes after it
        push Not at hgoes
        obtain ⟨fault, rfl, hfail⟩ := hgoes
        rw [hfail] at hnext
        cases hnext
        rw [List.append_nil]
        exact htask

/-! ## The guard of a run -/

/-- The task of a template comes to the value that holds the expanded text. -/
theorem Task.perform_format_apply (ctx : Context) (template : String) (taken : Nat) :
    (Task.format template).perform ctx taken =
      ⟨(ctx.format template taken).result.map Value.str, (ctx.format template taken).history⟩ :=
  Eval.map_apply (ctx.format template) Value.str taken

end LiveValue
