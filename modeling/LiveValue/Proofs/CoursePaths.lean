import LiveValue.Proofs.Termination

/-!
# The path of an evaluation

What a course does depends on the values that the tasks on its way come to. Its path is the one way
that it goes when the engine performs these tasks; a fault stands at the end of a path, or in one of
its tasks. A task that is attempted and stops with the fault is where the path to the fault ends,
though the course may go on there.

* `Course.leads_of_error`: where an evaluation stops with a fault, its path leads to the fault or to
  a task that stops with it;
* `leads_…`: what a path went through that ends in a fault, for each building block of courses.
-/

namespace LiveValue.Course

open Template

/-- The course, from a number of notes taken, comes to another one, with another number, and what it
attempts on the way has results that are allowed. -/
inductive Leads (allowed : Except Fault Value → Prop) : Course → Nat → Course → Nat → Prop
  | refl {course : Course} {taken : Nat} : Leads allowed course taken course taken
  | emit {o : Occurrence} {rest goal : Course} {taken k : Nat} :
      Leads allowed rest (taken + (History.notes [o]).length) goal k →
      Leads allowed (emit o rest) taken goal k
  | note {n : Note} {next : Nat → Course} {goal : Course} {taken k : Nat} :
      Leads allowed (next (taken + 1)) (taken + 1) goal k → Leads allowed (note n next) taken goal k
  | start {ctx : Context} {task : Task} {next : Value → Course} {goal : Course} {taken k : Nat}
      {value : Value} {history : History} :
      task.perform ctx taken = ⟨.ok value, history⟩ →
      Leads allowed (next value) (taken + history.notes.length) goal k →
      Leads allowed (start ctx task next) taken goal k
  | attempt {ctx : Context} {blocks : List Fields} {task : Task}
      {next : Except Fault Value → Course} {goal : Course} {taken k : Nat}
      {answer : Except Fault Value} {history : History} :
      task.perform ctx taken = ⟨answer, history⟩ → allowed answer →
      Leads allowed (next answer) (taken + history.notes.length) goal k →
      Leads allowed (attempt ctx blocks task next) taken goal k

variable {ctx c : Context} {course middle goal : Course} {taken j k : Nat} {fault : Fault}
  {allowed : Except Fault Value → Prop}

/-- The course comes to another one before anything that it attempts stops with the fault. -/
abbrev LeadsBefore (fault : Fault) : Course → Nat → Course → Nat → Prop := Leads (· ≠ .error fault)

theorem Leads.trans (h : Leads allowed course taken middle j) (h' : Leads allowed middle j goal k) :
    Leads allowed course taken goal k := by
  induction h with
  | refl => exact h'
  | emit _ ih => exact .emit (ih h')
  | note _ ih => exact .note (ih h')
  | start hm _ ih => exact .start hm (ih h')
  | attempt hm hne _ ih => exact .attempt hm hne (ih h')

theorem Leads.mono {allowed' : Except Fault Value → Prop} (h : Leads allowed course taken goal k)
    (hall : ∀ answer, allowed answer → allowed' answer) : Leads allowed' course taken goal k := by
  induction h with
  | refl => exact .refl
  | emit _ ih => exact .emit ih
  | note _ ih => exact .note ih
  | start hm _ ih => exact .start hm ih
  | attempt hm hanswer _ ih => exact .attempt hm (hall _ hanswer) ih

/-- What the course comes to is what the later one comes to, after the history of the path. -/
theorem Leads.eval_eq (h : Leads allowed course taken goal k) :
    ∃ before, course.eval taken = ⟨(goal.eval k).result, before ++ (goal.eval k).history⟩ := by
  induction h with
  | refl => exact ⟨[], rfl⟩
  | @emit o rest goal taken k _ ih =>
    obtain ⟨before, ih⟩ := ih
    refine ⟨o :: before, ?_⟩
    rw [eval, Eval.bind_of_ok (show Eval.emit o taken = ⟨.ok (), [o]⟩ from rfl), ih]
    rfl
  | @note n next goal taken k _ ih =>
    obtain ⟨before, ih⟩ := ih
    refine ⟨.noted n :: before, ?_⟩
    rw [eval, Eval.bind_of_ok (show Eval.note n taken = ⟨.ok (taken + 1), [.noted n]⟩ from rfl)]
    change Outcome.mk ((next (taken + 1)).eval (taken + 1)).result
      ([.noted n] ++ ((next (taken + 1)).eval (taken + 1)).history) = _
    rw [ih]
    rfl
  | @start ctx task next goal taken k value history hm _ ih =>
    obtain ⟨before, ih⟩ := ih
    refine ⟨history ++ before, ?_⟩
    rw [eval, Eval.bind_of_ok hm, ih, List.append_assoc]
  | @attempt ctx blocks task next goal taken k answer history hm _ _ ih =>
    obtain ⟨before, ih⟩ := ih
    refine ⟨history.within blocks ++ before, ?_⟩
    rw [eval, Eval.attempt_bind_apply]
    simp only [Eval.within, hm, History.notes_within, ih, List.append_assoc]

/-- The first thing that the course does is to start the task in the context. -/
inductive Begins (c : Context) (task : Task) : Course → Prop
  | start {next : Value → Course} : Begins c task (start c task next)
  | attempt {blocks : List Fields} {next : Except Fault Value → Course} :
      Begins c task (attempt c blocks task next)

theorem Leads.starts {task : Task} (h : Leads allowed course taken goal k)
    (hbegins : goal.Begins c task) : course.Starts c task := by
  induction h with
  | refl =>
    cases hbegins with
    | start => exact .here
    | attempt => exact .attempted
  | emit _ ih => exact .afterEmit (ih hbegins)
  | note _ ih => exact .afterNote _ (ih hbegins)
  | start _ _ ih => exact .afterStart _ (ih hbegins)
  | attempt _ _ _ ih => exact .afterAttempt _ (ih hbegins)

/-- An evaluation that stops with a fault leads to the fault, or to a task that stops with it. -/
theorem leads_of_error (h : (course.eval taken).result = .error fault) :
    (∃ k, LeadsBefore fault course taken (fail fault) k) ∨
      ∃ goal c task k, LeadsBefore fault course taken goal k ∧ goal.Begins c task ∧
        (task.perform c k).result = .error fault := by
  induction course generalizing taken with
  | done value => cases h
  | fail raised =>
    cases h
    exact .inl ⟨taken, .refl⟩
  | emit o rest ih =>
    rw [eval, Eval.bind_of_ok (show Eval.emit o taken = ⟨.ok (), [o]⟩ from rfl)] at h
    rcases ih h with ⟨k, hpath⟩ | ⟨goal, c, task, k, hpath, hfault⟩
    · exact .inl ⟨k, .emit hpath⟩
    · exact .inr ⟨goal, c, task, k, .emit hpath, hfault⟩
  | note n next ih =>
    have hnote : Eval.note n taken = ⟨.ok (taken + 1), [.noted n]⟩ := rfl
    rw [eval, Eval.bind_of_ok hnote] at h
    rcases ih (taken + 1) h with ⟨k, hpath⟩ | ⟨goal, c, task, k, hpath, hfault⟩
    · exact .inl ⟨k, .note hpath⟩
    · exact .inr ⟨goal, c, task, k, .note hpath, hfault⟩
  | start ctx task next ih =>
    rw [eval] at h
    rcases (task.perform ctx).apply_eq taken with ⟨raised, history, hm⟩ | ⟨value, history, hm⟩
    · rw [Eval.bind_of_error hm] at h
      refine .inr ⟨_, ctx, task, taken, .refl, .start, ?_⟩
      rw [hm]
      exact h
    · rw [Eval.bind_of_ok hm] at h
      rcases ih value h with ⟨k, hpath⟩ | ⟨goal, c, task, k, hpath, hfault⟩
      · exact .inl ⟨k, .start hm hpath⟩
      · exact .inr ⟨goal, c, task, k, .start hm hpath, hfault⟩
  | attempt ctx blocks task next ih =>
    rcases hm : task.perform ctx taken with ⟨answer, history⟩
    by_cases hanswer : answer = .error fault
    · refine .inr ⟨_, ctx, task, taken, .refl, .attempt, ?_⟩
      rw [hm]
      exact hanswer
    · rw [eval, Eval.attempt_bind_apply] at h
      simp only [Eval.within, hm, History.notes_within] at h
      rcases ih answer h with ⟨k, hpath⟩ | ⟨goal, c, task, k, hpath, hfault⟩
      · exact .inl ⟨k, .attempt hm hanswer hpath⟩
      · exact .inr ⟨goal, c, task, k, .attempt hm hanswer hpath, hfault⟩

/-! ## Paths to a fault -/

theorem not_leads_done {value : Value} :
    ¬LeadsBefore fault (done value) taken (fail fault) k := nofun

theorem not_leads_start_done {task : Task} :
    ¬LeadsBefore fault (start ctx task done) taken (fail fault) k := by
  rintro (_ | _ | _ | ⟨_, h⟩)
  exact not_leads_done h

theorem leads_ofExcept {result : Except Fault Value}
    (h : LeadsBefore fault (ofExcept result) taken (fail fault) k) : result = .error fault := by
  cases result with
  | ok value => exact absurd h not_leads_done
  | error raised =>
    cases h
    rfl

theorem leads_descend {expression : Option String} {next : Context → Course}
    (h : LeadsBefore fault (descend ctx expression next) taken (fail fault) k) :
    (ctx.limit ≤ ctx.depth ∧ fault = .nesting (ctx.depth + 1) ctx.limit expression) ∨
      (descend ctx expression next = next ctx.deeper ∧
        LeadsBefore fault (next ctx.deeper) taken (fail fault) k) := by
  unfold descend at h ⊢
  split at h
  · next hfull =>
    refine .inl ⟨by omega, ?_⟩
    cases h with
    | emit h =>
      cases h
      rfl
  · next hroom => exact .inr ⟨if_neg hroom, h⟩

theorem leads_lookup {name : String} {next : HostFunction → Course}
    (h : LeadsBefore fault (lookup ctx name next) taken (fail fault) k) :
    ∃ f, ctx.registry.get? name = some f ∧
      LeadsBefore fault (lookup ctx name next) taken (next f) taken ∧
      LeadsBefore fault (next f) taken (fail fault) k := by
  cases h with
  | emit h =>
    cases hget : ctx.registry.get? name with
    | none =>
      rw [hget] at h
      cases h with
      | emit h => exact absurd h not_leads_done
    | some f =>
      rw [hget] at h
      refine ⟨f, rfl, .emit ?_, h⟩
      rw [hget]
      exact .refl

theorem leads_collect {tasks : List Task} {next : List Value → Course}
    (h : LeadsBefore fault (collect ctx tasks next) taken (fail fault) k) :
    ∃ values j, LeadsBefore fault (collect ctx tasks next) taken (next values) j ∧
      LeadsBefore fault (next values) j (fail fault) k := by
  induction tasks generalizing next taken with
  | nil => exact ⟨[], taken, .refl, h⟩
  | cons task rest ih =>
    cases h with
    | @start _ _ _ _ _ _ value _ hm h =>
      obtain ⟨values, j, hpath, hrest⟩ := ih h
      exact ⟨value :: values, j, .start hm hpath, hrest⟩

/-- What leads on from the place where a function is invoked is invoked before. -/
theorem invoked_of_leads {i : Invocation} {rest : Course}
    (h : Leads allowed course taken (emit (.invoked i) rest) k) :
    i ∈ (course.eval taken).history.invocations := by
  obtain ⟨before, heval⟩ := h.eval_eq
  have hemit : Eval.emit (.invoked i) k = ⟨.ok (), [.invoked i]⟩ := rfl
  rw [heval, eval, Eval.bind_of_ok hemit]
  refine List.mem_filterMap.2 ⟨.invoked i, ?_, rfl⟩
  exact List.mem_append_right _ (List.mem_append_left _ List.mem_cons_self)

theorem leads_withText {value : Value} {next : List Char → Course}
    (h : LeadsBefore fault (withText value next) taken (fail fault) k) :
    value.text = .error fault ∨ ∃ s, LeadsBefore fault (next s) taken (fail fault) k := by
  unfold withText at h
  cases htext : value.text with
  | ok s =>
    rw [htext] at h
    exact .inr ⟨s, h⟩
  | error raised =>
    rw [htext] at h
    cases h
    exact .inl rfl

theorem leads_missBrace {template : String} {position : Nat} {rest : Course}
    (h : LeadsBefore fault (missBrace ctx template position rest) taken (fail fault) k) :
    (ctx.settings.strictTemplates = true ∧ fault = .unterminated template position) ∨
      LeadsBefore fault rest taken (fail fault) k := by
  unfold missBrace at h
  split at h
  · next hstrict =>
    cases h
    exact .inl ⟨hstrict, rfl⟩
  · cases h with
    | emit h => exact .inr h

end LiveValue.Course
