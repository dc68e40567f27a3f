import LiveValue.Proofs.Course

/-!
# Every evaluation ends

The courses of the engine's procedures start each other without any limit being handed along. Still
every evaluation ends, whatever the data hold and whatever the host functions ask for:

* calls and expressions go one level down, and a context has only so many levels;
* everything else stays on its level and starts something lighter: resolving and arguments start
  calls and expressions, and each turn of the loop over a template leaves less of it.

`lighter_of_starts` says so for one step, `wellFounded_started` that no chain of tasks goes on
forever, and `evaluation_ends` that each task has exactly one end, which is what the engine answers.
-/

namespace LiveValue

open Template

/-! ## Ends -/

namespace Course

/-- The course comes to an end, from a number of notes taken before it. A task that is started has
to end first, and a fault ends everything, unless the task was only attempted. -/
inductive Ends : Course → Nat → Outcome Value → Prop
  | done {value : Value} {taken : Nat} : Ends (done value) taken ⟨.ok value, []⟩
  | fail {fault : Fault} {taken : Nat} : Ends (fail fault) taken ⟨.error fault, []⟩
  | emit {o : Occurrence} {rest : Course} {taken : Nat} {result : Except Fault Value}
      {history : History} :
      Ends rest (taken + (History.notes [o]).length) ⟨result, history⟩ →
      Ends (emit o rest) taken ⟨result, o :: history⟩
  | note {n : Note} {next : Nat → Course} {taken : Nat} {result : Except Fault Value}
      {history : History} :
      Ends (next (taken + 1)) (taken + 1) ⟨result, history⟩ →
      Ends (note n next) taken ⟨result, .noted n :: history⟩
  | start {ctx : Context} {task : Task} {next : Value → Course} {taken : Nat} {value : Value}
      {history later : History} {result : Except Fault Value} :
      Ends (task.course ctx) taken ⟨.ok value, history⟩ →
      Ends (next value) (taken + history.notes.length) ⟨result, later⟩ →
      Ends (start ctx task next) taken ⟨result, history ++ later⟩
  | stop {ctx : Context} {task : Task} {next : Value → Course} {taken : Nat} {fault : Fault}
      {history : History} :
      Ends (task.course ctx) taken ⟨.error fault, history⟩ →
      Ends (start ctx task next) taken ⟨.error fault, history⟩
  | attempt {ctx : Context} {blocks : List Fields} {task : Task}
      {next : Except Fault Value → Course} {taken : Nat} {answer result : Except Fault Value}
      {history later : History} :
      Ends (task.course ctx) taken ⟨answer, history⟩ →
      Ends (next answer) (taken + history.notes.length) ⟨result, later⟩ →
      Ends (attempt ctx blocks task next) taken ⟨result, history.within blocks ++ later⟩

/-- A course has at most one end. -/
theorem Ends.unique {course : Course} {taken : Nat} {o o' : Outcome Value}
    (h : course.Ends taken o) (h' : course.Ends taken o') : o = o' := by
  induction h generalizing o' with
  | done => cases h'; rfl
  | fail => cases h'; rfl
  | emit _ ih =>
    cases h' with
    | emit hrest => cases ih hrest; rfl
  | note _ ih =>
    cases h' with
    | note hnext => cases ih hnext; rfl
  | start _ _ ihtask ihnext =>
    cases h' with
    | start htask hnext =>
      cases ihtask htask
      cases ihnext hnext
      rfl
    | stop htask => cases ihtask htask
  | stop _ ih =>
    cases h' with
    | start htask _ => cases ih htask
    | stop htask => cases ih htask; rfl
  | attempt _ _ ihtask ihnext =>
    cases h' with
    | attempt htask hnext =>
      cases ihtask htask
      cases ihnext hnext
      rfl

/-! ## What a course may start -/

/-- On some way that the course may go, it starts the task in the context. -/
inductive Starts : Course → Context → Task → Prop
  | here {ctx : Context} {task : Task} {next : Value → Course} :
      Starts (start ctx task next) ctx task
  | afterStart {ctx c : Context} {task t : Task} {next : Value → Course} (value : Value) :
      Starts (next value) c t → Starts (start ctx task next) c t
  | afterEmit {o : Occurrence} {rest : Course} {c : Context} {t : Task} :
      Starts rest c t → Starts (emit o rest) c t
  | afterNote {n : Note} {next : Nat → Course} {c : Context} {t : Task} (taken : Nat) :
      Starts (next taken) c t → Starts (note n next) c t
  | attempted {ctx : Context} {blocks : List Fields} {task : Task}
      {next : Except Fault Value → Course} : Starts (attempt ctx blocks task next) ctx task
  | afterAttempt {ctx c : Context} {blocks : List Fields} {task t : Task}
      {next : Except Fault Value → Course} (answer : Except Fault Value) :
      Starts (next answer) c t → Starts (attempt ctx blocks task next) c t

variable {ctx c : Context} {t : Task}

theorem not_starts_ofExcept (result : Except Fault Value) : ¬(ofExcept result).Starts c t := by
  cases result <;> exact nofun

theorem starts_descend {expression : Option String} {next : Context → Course}
    (h : (descend ctx expression next).Starts c t) :
    ctx.depth < ctx.limit ∧ (next ctx.deeper).Starts c t := by
  unfold descend at h
  split at h
  · cases h with
    | afterEmit h => cases h
  · next hlevel => exact ⟨by omega, h⟩

theorem starts_lookup {name : String} {next : HostFunction → Course}
    (h : (lookup ctx name next).Starts c t) : ∃ f, (next f).Starts c t := by
  cases h with
  | afterEmit h =>
    split at h
    · next f _ => exact ⟨f, h⟩
    · cases h with
      | afterEmit h => cases h

theorem starts_collect {tasks : List Task} {next : List Value → Course}
    (h : (collect ctx tasks next).Starts c t) :
    (c = ctx ∧ t ∈ tasks) ∨ ∃ values, (next values).Starts c t := by
  induction tasks generalizing next with
  | nil => exact .inr ⟨[], h⟩
  | cons task rest ih =>
    cases h with
    | here => exact .inl ⟨rfl, List.mem_cons_self⟩
    | afterStart value h =>
      rcases ih h with ⟨hc, ht⟩ | ⟨values, h⟩
      · exact .inl ⟨hc, List.mem_cons_of_mem _ ht⟩
      · exact .inr ⟨_, h⟩

/-- A host function asks on the level it was called on, in whatever scope. -/
theorem starts_ofProgram {program : Program} (h : (ofProgram ctx program).Starts c t) :
    c.remaining = ctx.remaining := by
  induction program with
  | done value => cases h
  | fail fault => cases h
  | ask place request next ih =>
    cases h with
    | attempted => exact Context.remaining_placed ctx place
    | afterAttempt answer h => exact ih answer h
  | record n next ih =>
    cases h with
    | afterNote taken h => exact ih taken h

theorem starts_invoke {name : String} {f : HostFunction} {args : List Value}
    (h : (invoke ctx name f args).Starts c t) : c.remaining = ctx.remaining := by
  cases h with
  | afterEmit h => exact starts_ofProgram h

theorem starts_missBrace {template : String} {position : Nat} {rest : Course}
    (h : (missBrace ctx template position rest).Starts c t) : rest.Starts c t := by
  unfold missBrace at h
  split at h
  · cases h
  · cases h with
    | afterEmit h => exact h

theorem starts_withText {value : Value} {next : List Char → Course}
    (h : (withText value next).Starts c t) : ∃ s, (next s).Starts c t := by
  unfold withText at h
  split at h
  · next s _ => exact ⟨s, h⟩
  · cases h

theorem starts_ofExpression {expression : Expression}
    (h : (ofExpression ctx expression).Starts c t) : c.remaining = ctx.remaining := by
  cases expression with
  | empty => cases h
  | absolute path => exact absurd h (not_starts_ofExcept _)
  | relative path => exact absurd h (not_starts_ofExcept _)
  | call source name args =>
    rcases starts_collect h with ⟨rfl, -⟩ | ⟨values, h⟩
    · rfl
    · obtain ⟨f, h⟩ := starts_lookup h
      exact starts_invoke h

end Course

/-! ## The order of tasks -/

namespace Task

/-- How much a task has to do on the level where it stands. -/
def weight : Task → Nat
  | call _ | evaluate _ | findFunction _ | listFunctions => 0
  | resolve _ | argument _ => 1
  | expand _ _ rest _ => rest.length + 1
  | format template => template.toList.length + 2
  | resolveMapping _ => 2

/-- A task in a context with fewer levels left, or with less to do on its level. -/
def Lighter (small large : Context × Task) : Prop :=
  Prod.Lex (· < ·) (· < ·) (small.1.remaining, small.2.weight) (large.1.remaining, large.2.weight)

theorem Lighter.of_level {ctx c : Context} {task t : Task} (hlt : ctx.depth < ctx.limit)
    (h : c.remaining = ctx.deeper.remaining) : Lighter (c, t) (ctx, task) := by
  have := ctx.remaining_deeper hlt
  exact .left _ _ (show c.remaining < ctx.remaining by omega)

theorem Lighter.of_weight {ctx : Context} {task t : Task} (h : t.weight < task.weight) :
    Lighter (ctx, t) (ctx, task) :=
  .right _ h

/-- The loop over a template only starts expressions and itself, with less of the template. -/
theorem lighter_of_starts_expand {ctx c : Context} {t : Task} {template : String} {position : Nat}
    {rest shown : List Char} (h : ((expand template position rest shown).course ctx).Starts c t) :
    Lighter (c, t) (ctx, expand template position rest shown) := by
  fun_cases Token.tokenize rest with
  | case1 => cases h
  | case2 rest =>
    cases h with
    | here => exact .of_weight (by simp only [weight, List.length_cons]; omega)
    | afterStart value h => cases h
  | case3 rest hlength =>
    have hstart : (Course.start ctx (evaluate (String.ofList (Body.read rest).text)) fun value =>
        Course.withText value fun s =>
          Course.start ctx
            (expand template (position + 2 + (Body.read rest).source.length) (Body.read rest).rest
              (shown ++ s)) Course.done).Starts c t := by
      rw [course] at h
      split at h
      · exact h
      · exact Course.starts_missBrace h
    cases hstart with
    | here => exact .of_weight (by simp only [weight]; omega)
    | afterStart value h =>
      obtain ⟨s, h⟩ := Course.starts_withText h
      cases h with
      | here => exact .of_weight (by simp only [weight, List.length_cons]; omega)
      | afterStart value h => cases h
  | case4 char rest hopening hplaceholder =>
    rw [course] at h
    · cases h with
      | here => exact .of_weight (by simp only [weight, List.length_cons]; omega)
      | afterStart value h => cases h
    · exact hopening
    · exact hplaceholder

/-- Whatever a task may start is lighter than the task itself. -/
theorem lighter_of_starts {ctx c : Context} {task t : Task} (h : (task.course ctx).Starts c t) :
    Lighter (c, t) (ctx, task) := by
  cases task with
  | resolve value =>
    rw [course] at h
    split at h
    · cases h
    · exact absurd h (Course.not_starts_ofExcept _)
    · cases h with
      | here => exact .of_weight (by simp only [weight]; omega)
      | afterStart value h => cases h
  | call c =>
    -- all that a call starts lies one level further down, however heavy it is
    rw [course] at h
    obtain ⟨hlt, h⟩ := Course.starts_descend h
    obtain ⟨f, h⟩ := Course.starts_lookup h
    rcases Course.starts_collect h with ⟨rfl, -⟩ | ⟨values, h⟩
    · exact .of_level hlt rfl
    · exact .of_level hlt (Course.starts_invoke h)
  | evaluate text =>
    rw [course] at h
    obtain ⟨hlt, h⟩ := Course.starts_descend h
    exact .of_level hlt (Course.starts_ofExpression h)
  | argument raw =>
    rw [course] at h
    split at h
    · cases h with
      | here => exact .of_weight (by simp only [weight]; omega)
      | afterStart value h => cases h
    · cases h with
      | here => exact .of_weight (by simp only [weight]; omega)
      | afterStart value h =>
        dsimp only at h
        split at h
        · exact absurd h (Course.not_starts_ofExcept _)
        · cases h
    · exact absurd h (Course.not_starts_ofExcept _)
  | format template =>
    cases h with
    | here => exact .of_weight (by simp only [weight]; omega)
    | afterStart value h => cases h
  | expand template position rest shown => exact lighter_of_starts_expand h
  | resolveMapping value =>
    cases value with
    | map entries =>
      rw [course] at h
      rcases Course.starts_collect h with ⟨rfl, ht⟩ | ⟨values, h⟩
      · obtain ⟨entry, -, rfl⟩ := List.mem_map.1 ht
        exact .of_weight (by simp only [weight]; omega)
      · cases h
    | _ => cases h
  | findFunction name =>
    rw [course] at h
    cases h with
    | afterEmit h =>
      split at h
      · cases h
      · cases h with
        | afterEmit h => cases h
  | listFunctions =>
    cases h with
    | afterEmit h => cases h

/-- The first task in its context is started on the way of the second one. -/
def Started (inner outer : Context × Task) : Prop := (outer.2.course outer.1).Starts inner.1 inner.2

/-- No chain of tasks, each of which starts the next one, goes on forever. -/
theorem wellFounded_started : WellFounded Started := by
  have hlighter : WellFounded Lighter :=
    InvImage.wf _ (Prod.lex Nat.lt_wfRel Nat.lt_wfRel).wf
  exact Subrelation.wf (fun h => lighter_of_starts h) hlighter

end Task

/-! ## Every task ends -/

/-- A course ends as the engine says, if all tasks do that it may start. -/
theorem Course.ends_eval {course : Course}
    (h : ∀ c t, course.Starts c t → ∀ taken, (t.course c).Ends taken (t.perform c taken))
    (taken : Nat) : course.Ends taken (course.eval taken) := by
  induction course generalizing taken with
  | done value => exact .done
  | fail fault => exact .fail
  | emit o rest ih =>
    rw [eval, Eval.bind_of_ok (m := Eval.emit o) rfl]
    exact .emit (ih (fun c t hs => h c t (.afterEmit hs)) _)
  | note n next ih =>
    rw [eval, Eval.bind_of_ok (m := Eval.note n) rfl]
    exact .note (ih _ (fun c t hs => h c t (.afterNote _ hs)) _)
  | start ctx task next ih =>
    have htask := h ctx task .here taken
    rw [eval]
    rcases (task.perform ctx).apply_eq taken with ⟨fault, history, hm⟩ | ⟨value, history, hm⟩
    · rw [Eval.bind_of_error hm]
      rw [hm] at htask
      exact .stop htask
    · rw [Eval.bind_of_ok hm]
      rw [hm] at htask
      exact .start htask (ih value (fun c t hs => h c t (.afterStart value hs)) _)
  | attempt ctx blocks task next ih =>
    have htask := h ctx task .attempted taken
    rw [eval, Eval.attempt_bind_apply]
    rcases hm : task.perform ctx taken with ⟨answer, history⟩
    rw [hm] at htask
    have hnext := ih answer (fun c t hs => h c t (.afterAttempt answer hs))
      (taken + history.notes.length)
    simp only [Eval.within, hm, History.notes_within]
    exact .attempt htask hnext

theorem Task.ends_perform (ctx : Context) (task : Task) (taken : Nat) :
    (task.course ctx).Ends taken (task.perform ctx taken) := by
  obtain ⟨start, hstart⟩ : ∃ start : Context × Task, start = (ctx, task) := ⟨_, rfl⟩
  induction start using Task.wellFounded_started.induction generalizing ctx task taken with
  | _ start ih =>
    subst hstart
    rw [Task.perform_eq]
    exact Course.ends_eval (fun c t hs taken => ih (c, t) hs c t taken rfl) taken

/-- Tasks cannot start each other forever, so every task ends, in one way only, with a value or a
fault; and the operations of the engine answer with these ends. This holds for all data, all host
functions, every limit and every depth to start from. -/
theorem evaluation_ends :
    WellFounded Task.Started ∧
    (∀ (ctx : Context) (task : Task) (taken : Nat),
      ∃! outcome, (task.course ctx).Ends taken outcome) ∧
    (∀ (ctx : Context) (taken : Nat),
      (∀ value, ((Task.resolve value).course ctx).Ends taken (ctx.resolve value taken)) ∧
      (∀ text, ((Task.evaluate text).course ctx).Ends taken (ctx.evaluate text taken)) ∧
      (∀ raw, ((Task.argument raw).course ctx).Ends taken (ctx.argument raw taken)) ∧
      (∀ template, ((Task.format template).course ctx).Ends taken
        ((do return Value.str (← ctx.format template)) taken))) ∧
    (∀ (r : Resolver) (value : Value) (taken : Nat),
      ((Task.resolveMapping value).course r.context).Ends taken (r.resolveMapping value taken)) := by
  refine ⟨Task.wellFounded_started, fun ctx task taken => ?_, fun ctx taken => ⟨?_, ?_, ?_, ?_⟩, ?_⟩
  · have hends := Task.ends_perform ctx task taken
    exact ⟨_, hends, fun outcome h => h.unique hends⟩
  · exact fun value => Task.ends_perform ctx (.resolve value) taken
  · exact fun text => Task.ends_perform ctx (.evaluate text) taken
  · exact fun raw => Task.ends_perform ctx (.argument raw) taken
  · exact fun template => Task.ends_perform ctx (.format template) taken
  · intro r value taken
    rw [← Task.perform_resolveMapping]
    exact Task.ends_perform r.context (.resolveMapping value) taken

end LiveValue
