import LiveValue.Proofs.CoursePaths
import LiveValue.Proofs.RecursionGuard

/-!
# Where faults come from

With the built-in functions alone, whatever the data and the texts are, a run stops for a few
reasons only: the limit of the depth, a placeholder of a strict template that is never closed, a
number that is too long to be converted, or a sum of numbers that do not go together. Each fault
can be followed to the procedure that it comes from.

* `Task.Raises`: over what each procedure stops by itself;
* `Task.origin`: a fault of a run comes from a procedure that the run reaches;
* `faults_accounted_for`: the faults of all operations on a context.
-/

namespace LiveValue

open Template

/-! ## Procedures that stop by themselves -/

namespace Task

/-- Over what a procedure stops by itself in a context, from a number of notes taken. -/
inductive Raises (ctx : Context) (taken : Nat) : Task → Fault → Prop
  | deepCall {c : Call} :
      ctx.limit ≤ ctx.depth →
      Raises ctx taken (call c) (.nesting (ctx.depth + 1) ctx.limit (some c.name))
  | deepExpression {text : String} :
      ctx.limit ≤ ctx.depth →
      Raises ctx taken (evaluate text)
        (.nesting (ctx.depth + 1) ctx.limit (some (Expression.read text.toList).source))
  /-- A placeholder of a strict template is never closed. -/
  | unclosed {template : String} {position : Nat} {rest shown : List Char} :
      ctx.settings.strictTemplates = true → (Body.read rest).closed = false →
      Raises ctx taken (expand template position ('$' :: '{' :: rest) shown)
        (.unterminated template position)
  /-- A segment of a path is too long for a position of a list. -/
  | longBinding {value : Value} {path : String} :
      Descriptor.ofValue value = .binding path →
      Path.TooLong (Path.source ctx.dataModel ctx.scope path) path →
      Raises ctx taken (resolve value) .digitLimit
  | longPath {text path : String} :
      Expression.read text.toList = .absolute path ∨ Expression.read text.toList = .relative path →
      Path.TooLong (Path.source ctx.dataModel ctx.scope path) path →
      Raises ctx taken (evaluate text) .digitLimit
  | longLiteral {raw text : String} :
      Argument.read raw = .literal text ∨ Argument.read raw = .reference text →
      Numeral.TooLong text.toList → Raises ctx taken (argument raw) .digitLimit
  /-- The value of a placeholder holds an integer that is too long to be shown. -/
  | longValue {template : String} {position : Nat} {rest shown : List Char} {value : Value} :
      ((evaluate (String.ofList (Body.read rest).text)).perform ctx taken).result = .ok value →
      value.HoldsTooLong →
      Raises ctx taken (expand template position ('$' :: '{' :: rest) shown) .digitLimit
  /-- A built-in function gets arguments that it stops over. -/
  | function {task : Task} {i : Invocation} {fault : Fault} :
      i ∈ (task.perform ctx taken).history.invocations → Builtin.Fails i.args i.name fault →
      Raises ctx taken task fault
  | shapeless {value : Value} :
      (∀ entries, value ≠ .map entries) → Raises ctx taken (resolveMapping value) .notMapping

end Task

namespace Course

variable {ctx : Context} {taken k : Nat} {fault : Fault}

theorem leads_ofProgram {program : Program}
    (h : LeadsBefore fault (ofProgram ctx program) taken (fail fault) k) :
    program.Raises fault := by
  induction program generalizing taken with
  | done value => exact absurd h not_leads_done
  | fail raised =>
    cases h
    exact .here
  | ask place request next ih =>
    cases h with
    | attempt hm hne h => exact .afterAsk hne (ih _ h)
  | record n next ih =>
    cases h with
    | note h => exact .afterRecord _ (ih _ h)

/-- An invocation of a built-in function that ends in a fault, at the end of a path. -/
theorem raises_of_leads_invoke {task : Task} {inner : Context} {name : String} {f : HostFunction}
    {args : List Value} {j : Nat} (hget : inner.registry.get? name = some f)
    (hgiven : inner.functions = Table.empty) (hclock : inner.clock.HasTimestamp)
    (hpath : LeadsBefore fault (task.course ctx) taken (invoke inner name f args) j)
    (h : LeadsBefore fault (invoke inner name f args) j (fail fault) k) :
    task.Raises ctx taken fault := by
  have hbuiltin : Builtin.table.get? name = some f := by
    rw [← hget]
    unfold Context.registry Registry.get?
    rw [hgiven]
    rfl
  have hmem := invoked_of_leads hpath
  rw [← Task.perform_eq] at hmem
  cases h with
  | emit h => exact .function hmem (Builtin.fails_of_raises hbuiltin hclock (leads_ofProgram h))

end Course

namespace Task

open Course

variable {ctx : Context} {taken k : Nat} {fault : Fault}

theorem raises_of_leads_call {c : Call} (hgiven : ctx.functions = Table.empty)
    (hclock : ctx.clock.HasTimestamp)
    (h : LeadsBefore fault ((call c).course ctx) taken (.fail fault) k) :
    (call c).Raises ctx taken fault := by
  have hcourse := h
  rw [course] at h
  rcases leads_descend h with ⟨hfull, rfl⟩ | ⟨hdescend, hnext⟩
  · exact .deepCall hfull
  · obtain ⟨f, hget, hlookup, hcollect⟩ := leads_lookup hnext
    obtain ⟨args, j, hargs, hinvoke⟩ := leads_collect hcollect
    -- a described call looks its function up first and resolves the arguments then
    refine raises_of_leads_invoke hget hgiven hclock ?_ hinvoke
    rw [course, hdescend]
    exact hlookup.trans hargs

theorem raises_of_leads_evaluate {text : String} (hgiven : ctx.functions = Table.empty)
    (hclock : ctx.clock.HasTimestamp)
    (h : LeadsBefore fault ((evaluate text).course ctx) taken (.fail fault) k) :
    (evaluate text).Raises ctx taken fault := by
  rw [course] at h
  rcases leads_descend h with ⟨hfull, rfl⟩ | ⟨hdescend, hnext⟩
  · exact .deepExpression hfull
  · cases hread : Expression.read text.toList with
    | empty =>
      rw [hread] at hnext
      exact absurd hnext not_leads_done
    | absolute path =>
      rw [hread] at hnext
      obtain ⟨rfl, hlong⟩ := Path.resolve_eq_error (leads_ofExcept hnext)
      exact .longPath (.inl hread) hlong
    | relative path =>
      rw [hread] at hnext
      obtain ⟨rfl, hlong⟩ := Path.resolve_eq_error (leads_ofExcept hnext)
      exact .longPath (.inr hread) hlong
    | call source name args =>
      rw [hread] at hnext
      obtain ⟨values, j, hvalues, hlookup⟩ := leads_collect hnext
      obtain ⟨f, hget, hfound, hinvoke⟩ := leads_lookup hlookup
      -- a written call resolves the arguments first and looks its function up then
      refine raises_of_leads_invoke hget hgiven hclock ?_ hinvoke
      rw [course, hdescend, hread]
      exact hvalues.trans hfound

theorem raises_of_leads_argument {raw : String}
    (h : LeadsBefore fault ((argument raw).course ctx) taken (.fail fault) k) :
    (argument raw).Raises ctx taken fault := by
  rw [course] at h
  cases hread : Argument.read raw with
  | placeholder body =>
    rw [hread] at h
    exact absurd h not_leads_start_done
  | literal text =>
    rw [hread] at h
    obtain ⟨rfl, hlong⟩ := Argument.literalValue_eq_error (leads_ofExcept h)
    exact .longLiteral (.inl hread) hlong
  | reference text =>
    rw [hread] at h
    cases h with
    | @start _ _ _ _ _ _ found _ _ h =>
      change LeadsBefore _ (if found.isUndefined then _ else _) _ _ _ at h
      split at h
      · -- a reference that finds nothing counts as a literal
        obtain ⟨rfl, hlong⟩ := Argument.literalValue_eq_error (leads_ofExcept h)
        exact .longLiteral (.inr hread) hlong
      · exact absurd h not_leads_done

theorem raises_of_leads_expand {template : String} {position : Nat} {rest shown : List Char}
    (h : LeadsBefore fault ((expand template position rest shown).course ctx) taken (.fail fault) k) :
    (expand template position rest shown).Raises ctx taken fault := by
  fun_cases Token.tokenize rest with
  | case1 => exact absurd h not_leads_done
  | case2 rest => exact absurd h not_leads_start_done
  | case3 rest =>
    have hshow
        (h : LeadsBefore fault (showPlaceholder ctx template position rest shown) taken (.fail fault) k) :
        (expand template position ('$' :: '{' :: rest) shown).Raises ctx taken fault := by
      cases h with
      | start hm h =>
        rcases leads_withText h with htext | ⟨s, hs⟩
        · obtain ⟨rfl, hlong⟩ := Value.text_eq_error htext
          exact .longValue (by rw [hm]) hlong
        · exact absurd hs not_leads_start_done
    rw [course_placeholder] at h
    split at h
    · exact hshow h
    · next hopen =>
      -- an open placeholder ends a strict template, and counts as closed in any other one
      rcases leads_missBrace h with ⟨hstrict, rfl⟩ | h
      · exact .unclosed hstrict (Bool.eq_false_iff.2 hopen)
      · exact hshow h
  | case4 c rest hopening hplaceholder =>
    rw [course] at h
    · exact absurd h not_leads_start_done
    · exact hopening
    · exact hplaceholder

/-- A procedure whose path leads to a fault stops by itself. -/
theorem raises_of_leads {task : Task} (hgiven : ctx.functions = Table.empty)
    (hclock : ctx.clock.HasTimestamp)
    (h : LeadsBefore fault (task.course ctx) taken (.fail fault) k) :
    task.Raises ctx taken fault := by
  cases task with
  | resolve value =>
    rw [course] at h
    cases hof : Descriptor.ofValue value with
    | literal value =>
      rw [hof] at h
      exact absurd h not_leads_done
    | binding path =>
      rw [hof] at h
      obtain ⟨rfl, hlong⟩ := Path.resolve_eq_error (leads_ofExcept h)
      exact .longBinding hof hlong
    | call c =>
      rw [hof] at h
      exact absurd h not_leads_start_done
  | call c => exact raises_of_leads_call hgiven hclock h
  | evaluate text => exact raises_of_leads_evaluate hgiven hclock h
  | argument raw => exact raises_of_leads_argument h
  | format template => exact absurd h not_leads_start_done
  | expand template position rest shown => exact raises_of_leads_expand h
  | resolveMapping value =>
    cases value with
    | map entries =>
      obtain ⟨values, j, -, hdone⟩ := leads_collect h
      exact absurd hdone not_leads_done
    | _ =>
      cases h
      exact .shapeless fun entries hmap => by cases hmap
  | findFunction name =>
    rw [course] at h
    cases h with
    | emit h =>
      split at h
      · exact absurd h not_leads_done
      · cases h with
        | emit h => exact absurd h not_leads_done
  | listFunctions =>
    cases h with
    | emit h => exact absurd h not_leads_done

end Task

/-! ## Procedures that a run reaches -/

/-- What may be handed on is the same place, but for the depth, the scope and what is bound. -/
theorem Context.Hands.eq {ctx c : Context} {before : List Invocation} (h : ctx.Hands before c) :
    c = { ctx with depth := c.depth, scope := c.scope, bound := c.bound } := by
  cases h <;> rfl

namespace Course

variable {ctx c : Context} {t : Task}

/-- A course that keeps to the guard starts inner tasks in contexts that it may hand on. -/
theorem Keeps.of_starts {before : List Invocation} {course : Course}
    (hk : course.Keeps ctx before) (h : course.Starts c t) :
    t.IsInner ∧ ∃ invoked, ctx.Hands invoked c := by
  induction h generalizing before with
  | here =>
    cases hk with
    | start hhands hinner _ => exact ⟨hinner, _, hhands⟩
  | afterStart value _ ih =>
    cases hk with
    | start _ _ hk => exact ih (hk value)
  | attempted =>
    cases hk with
    | attempt hhands hinner _ _ => exact ⟨hinner, _, hhands⟩
  | @afterAttempt _ _ _ _ _ next answer h ih =>
    cases hk with
    | attempt _ _ hk _ =>
      refine ih (hk answer fun fault _ hfail => ?_)
      rw [hfail] at h
      cases h
  | afterEmit h ih =>
    cases hk with
    | refused _ => cases h
    | emit _ _ hk => exact ih hk
    | invoked _ _ hk => exact ih hk
  | afterNote taken _ ih =>
    cases hk with
    | note hk => exact ih (hk taken)

end Course

namespace Task

variable {ctx : Context} {taken : Nat} {fault : Fault}

/-- In the run of a task, from a number of notes taken, a task is performed in a context. -/
inductive Reaches : Context → Nat → Task → Context → Nat → Task → Prop
  | self {ctx : Context} {taken : Nat} {task : Task} : Reaches ctx taken task ctx taken task
  | through {ctx c c' : Context} {taken k k' : Nat} {task t t' : Task} {goal : Course} :
      Course.Leads (fun _ => True) (task.course ctx) taken goal k → goal.Begins c t →
      Reaches c k t c' k' t' → Reaches ctx taken task c' k' t'

theorem Reaches.context_eq {c' : Context} {k' : Nat} {task t : Task}
    (h : Reaches ctx taken task c' k' t) :
    c' = { ctx with depth := c'.depth, scope := c'.scope, bound := c'.bound } := by
  induction h with
  | self => rfl
  | through hpath hbegins _ ih =>
    obtain ⟨-, invoked, hhands⟩ := (Task.keeps _ _).of_starts (hpath.starts hbegins)
    rw [ih, hhands.eq]

theorem Reaches.isInner {c' : Context} {k' : Nat} {task t : Task}
    (h : Reaches ctx taken task c' k' t) (hinner : task.IsInner) : t.IsInner := by
  induction h with
  | self => exact hinner
  | through hpath hbegins _ ih => exact ih ((Task.keeps _ _).of_starts (hpath.starts hbegins)).1

/-- A task that stops with a fault reaches a task that stops with it by itself. -/
theorem origin {task : Task} (hgiven : ctx.functions = Table.empty)
    (hclock : ctx.clock.HasTimestamp) (h : (task.perform ctx taken).result = .error fault) :
    ∃ c k t, Reaches ctx taken task c k t ∧ t.Raises c k fault := by
  obtain ⟨start, hstart⟩ : ∃ start : Context × Task, start = (ctx, task) := ⟨_, rfl⟩
  induction start using wellFounded_started.induction generalizing ctx task taken with
  | _ start ih =>
    subst hstart
    rw [perform_eq] at h
    -- the fault is the task's own, or that of a task on its way, to which the induction applies
    rcases Course.leads_of_error h with ⟨k, hpath⟩ | ⟨goal, c, t, k, hpath, hbegins, hfault⟩
    · exact ⟨ctx, taken, task, .self, raises_of_leads hgiven hclock hpath⟩
    · have hstarts := hpath.starts hbegins
      obtain ⟨-, invoked, hhands⟩ := (Task.keeps ctx task).of_starts hstarts
      have hgiven' : c.functions = Table.empty := by rw [hhands.eq]; exact hgiven
      have hclock' : c.clock.HasTimestamp := by rw [hhands.eq]; exact hclock
      obtain ⟨c', k', t', hreaches, hraises⟩ :=
        ih (c, t) hstarts hgiven' hclock' hfault rfl
      exact ⟨c', k', t', .through (hpath.mono fun _ _ => trivial) hbegins hreaches, hraises⟩

end Task

/-! ## The faults of an operation -/

/-- The engine may stop with the fault under the settings, whatever it is asked to do. -/
def Fault.IsDocumented (settings : Settings) : Fault → Prop
  | .nesting .. | .digitLimit | .outOfRange => True
  | .unterminated .. => settings.strictTemplates = true
  | .host _ | .notMapping | .unorderedKeys => False

/-- The fault is a documented one, and it comes from a procedure that the run of a task reaches. -/
structure Task.Accounts (ctx : Context) (taken : Nat) (task : Task) (fault : Fault) : Prop where
  documented : fault.IsDocumented ctx.settings
  origin : ∃ c k t, Reaches ctx taken task c k t ∧ t.Raises c k fault

theorem Task.Raises.isDocumented {ctx : Context} {taken : Nat} {task : Task} {fault : Fault}
    (h : task.Raises ctx taken fault) (hinner : task.IsInner) :
    fault.IsDocumented ctx.settings := by
  cases h with
  | deepCall _ => trivial
  | deepExpression _ => trivial
  | unclosed hstrict _ => exact hstrict
  | longBinding _ _ => trivial
  | longPath _ _ => trivial
  | longLiteral _ _ => trivial
  | longValue _ _ => trivial
  | function _ hfails =>
    rcases hfails.fault_eq with rfl | ⟨rfl, -⟩ <;> trivial
  | shapeless _ => exact absurd hinner id

theorem Task.accounts {ctx : Context} {taken : Nat} {fault : Fault} (task : Task)
    (hinner : task.IsInner) (hgiven : ctx.functions = Table.empty)
    (hclock : ctx.clock.HasTimestamp) (h : (task.perform ctx taken).result = .error fault) :
    task.Accounts ctx taken fault := by
  obtain ⟨c, k, t, hreaches, hraises⟩ := origin hgiven hclock h
  refine ⟨?_, c, k, t, hreaches, hraises⟩
  have hdocumented := hraises.isDocumented (hreaches.isInner hinner)
  rw [hreaches.context_eq] at hdocumented
  exact hdocumented

theorem Context.format_accounts {ctx : Context} {taken : Nat} {template : String} {fault : Fault}
    (hgiven : ctx.functions = Table.empty) (hclock : ctx.clock.HasTimestamp)
    (h : (ctx.format template taken).result = .error fault) :
    (Task.format template).Accounts ctx taken fault := by
  refine Task.accounts (.format template) trivial hgiven hclock ?_
  rw [Task.perform_format_apply, h]
  rfl

/-- Showing what a value describes adds the faults of showing it. -/
theorem Resolver.resolveString_accounts {r : Resolver} {taken : Nat} {value : Value} {fault : Fault}
    (hgiven : r.functions = Table.empty) (hclock : r.clock.HasTimestamp)
    (h : (r.resolveString value taken).result = .error fault) :
    (Task.resolve value).Accounts r.context taken fault ∨
      (fault = .digitLimit ∧
        ∃ shown, (r.resolve value taken).result = .ok shown ∧ shown.HoldsTooLong) := by
  unfold resolveString at h
  rcases (r.resolve value).apply_eq taken with ⟨raised, history, hm⟩ | ⟨shown, history, hm⟩
  · rw [Eval.bind_of_error hm] at h
    refine .inl (Task.accounts (.resolve value) trivial hgiven hclock ?_)
    change (r.resolve value taken).result = _
    rw [hm]
    cases h
    rfl
  · rw [Eval.bind_of_ok hm] at h
    cases htext : shown.text with
    | ok s =>
      rw [htext] at h
      cases h
    | error raised =>
      rw [htext] at h
      cases h
      obtain ⟨hfault, hlong⟩ := Value.text_eq_error htext
      exact .inr ⟨hfault, shown, by rw [hm], hlong⟩

/-- With the built-in functions alone, every operation comes to a value or to a documented fault
that can be accounted for, at every depth, for every text, value and data model; and what is to be
unquoted always has a first character. -/
theorem faults_accounted_for (ctx : Context) (hgiven : ctx.functions = Table.empty)
    (hclock : ctx.clock.HasTimestamp) (taken : Nat) (fault : Fault) :
    (∀ template, (ctx.format template taken).result = .error fault →
      (Task.format template).Accounts ctx taken fault) ∧
    (∀ value, (ctx.resolve value taken).result = .error fault →
      (Task.resolve value).Accounts ctx taken fault) ∧
    (∀ expression, (ctx.evaluate expression taken).result = .error fault →
      (Task.evaluate expression).Accounts ctx taken fault) ∧
    (∀ raw, (ctx.argument raw taken).result = .error fault →
      (Task.argument raw).Accounts ctx taken fault) ∧
    (∀ (r : Resolver) (value : Value), r.context = ctx →
      (r.resolveString value taken).result = .error fault →
      (Task.resolve value).Accounts ctx taken fault ∨
        (fault = .digitLimit ∧
          ∃ shown, (r.resolve value taken).result = .ok shown ∧ shown.HoldsTooLong)) ∧
    (∀ (s : List Char) (c : Char), s.head? = some c → (Text.Quote.ofChar? c).isSome = true →
      s.getLast? = some c → (Argument.quoted? s).isSome = true) := by
  refine ⟨fun template h => ?_, fun value h => ?_, fun expression h => ?_, fun raw h => ?_, ?_, ?_⟩
  · exact Context.format_accounts hgiven hclock h
  · exact Task.accounts (.resolve value) trivial hgiven hclock h
  · exact Task.accounts (.evaluate expression) trivial hgiven hclock h
  · exact Task.accounts (.argument raw) trivial hgiven hclock h
  · rintro r value rfl h
    exact Resolver.resolveString_accounts hgiven hclock h
  · exact fun s c => Argument.quoted?_of_quotes

/-- Strict templates, and a data model that holds one with an open placeholder. -/
def openContext : Context :=
  Context.root (.map [(.str "note", .str "$\x7ba")]) .null Table.empty
    { Settings.standard with strictTemplates := true } ⟨⟨2026, 1, 25⟩, 12, 0, 0, 0, none⟩

/-- The open placeholder is that of the template in the data, not of the one that is expanded. -/
theorem faults_accounted_for_open :
    openContext.functions = Table.empty ∧ openContext.clock.HasTimestamp ∧
    (openContext.format "-$\x7bformatString(/note)\x7d" 0).result
      = .error (.unterminated "$\x7ba" 0) ∧
    (Task.format "-$\x7bformatString(/note)\x7d").Accounts openContext 0
      (.unterminated "$\x7ba" 0) := by
  have hclock : openContext.clock.HasTimestamp := by
    unfold Moment.HasTimestamp
    decide
  have hresult : (openContext.format "-$\x7bformatString(/note)\x7d" 0).result
      = .error (.unterminated "$\x7ba" 0) := by cbv
  have haccounted := (faults_accounted_for openContext rfl hclock 0 (.unterminated "$\x7ba" 0)).1
    "-$\x7bformatString(/note)\x7d"
  exact ⟨rfl, hclock, hresult, haccounted hresult⟩

end LiveValue
