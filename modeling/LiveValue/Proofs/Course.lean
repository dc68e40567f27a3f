import LiveValue.Proofs.Simulation
import LiveValue.Resolver

/-!
# The course of an evaluation

The engine is a handful of procedures that start each other: values resolve to calls, calls resolve
values, expressions evaluate arguments, templates evaluate expressions, host functions start any of
them again. A `Task` is one procedure with its argument, and its `course` is what the procedure does
in a context, step by step, where starting another task is one of the steps. The engine's own
procedures stop where a task that they start stops; a host function may go on all the same. Nothing
here counts levels: a course may start a task of the same kind, in the same context or a deeper one,
and it is not said that this comes to an end.

* `Task.perform_eq`: what the engine makes of a task is what its course makes of it, once the tasks
  that the course starts are performed by the engine.
-/

namespace LiveValue

open Template

/-- A procedure of the engine with its argument. The task `expand` is the loop over a template: at a
position, with the text from there on, and with what is to be shown of the text before. -/
inductive Task where
  | resolve (value : Value)
  | call (call : Call)
  | evaluate (expression : String)
  | argument (raw : String)
  | format (template : String)
  | expand (template : String) (position : Nat) (rest shown : List Char)
  | resolveMapping (value : Value)
  | findFunction (name : String)
  | listFunctions

/-- What a procedure does: it ends, or something happens and it goes on. -/
inductive Course where
  | done (value : Value)
  | fail (fault : Fault)
  | emit (o : Occurrence) (rest : Course)
  | note (n : Note) (next : Nat → Course)
  /-- Starts a task in a context and goes on with its value. -/
  | start (ctx : Context) (task : Task) (next : Value → Course)
  /-- Starts a task inside blocks of variables and goes on with its value or its fault. -/
  | attempt (ctx : Context) (blocks : List Fields) (task : Task)
      (next : Except Fault Value → Course)

namespace Course

def ofExcept : Except Fault Value → Course
  | .ok value => done value
  | .error fault => fail fault

def log (event : Event) (rest : Course) : Course := emit (.logged ⟨event, []⟩) rest

def descend (ctx : Context) (expression : Option String) (next : Context → Course) : Course :=
  if ctx.limit < ctx.depth + 1 then
    log (.nestingExceeded (ctx.depth + 1) ctx.limit expression)
      (fail (.nesting (ctx.depth + 1) ctx.limit expression))
  else next ctx.deeper

/-- Looks a function up; without one there is nothing more to do. -/
def lookup (ctx : Context) (name : String) (next : HostFunction → Course) : Course :=
  emit (.sought name) <|
    match ctx.registry.get? name with
    | some f => next f
    | none => log (.unknownFunction name) (done .undefined)

/-- Starts tasks one after the other and goes on with all their values. -/
def collect (ctx : Context) : List Task → (List Value → Course) → Course
  | [], next => next []
  | task :: rest, next =>
      start ctx task fun value => collect ctx rest fun values => next (value :: values)

def taskOf : Request → Task
  | .format template => .format template
  | .resolve descriptor => .resolve descriptor
  | .evaluate expression => .evaluate expression
  | .lookup name => .findFunction name
  | .functions => .listFunctions

/-- What a host function does in the context that it was given. -/
def ofProgram (ctx : Context) : Program → Course
  | .done value => done value
  | .fail fault => fail fault
  | .ask place request next =>
      attempt (ctx.placed place) place.blocks (taskOf request) fun result =>
        ofProgram ctx (next result)
  | .record n next => note n fun taken => ofProgram ctx (next taken)

def invoke (ctx : Context) (name : String) (f : HostFunction) (args : List Value) : Course :=
  emit (.invoked ⟨name, args, ctx⟩) (ofProgram ctx (f args ctx.toView))

/-- Says that a placeholder is never closed, which ends a strict course. -/
def missBrace (ctx : Context) (template : String) (position : Nat) (rest : Course) : Course :=
  if ctx.settings.strictTemplates then fail (.unterminated template position)
  else log (.unterminatedPlaceholder position) rest

def withText (value : Value) (next : List Char → Course) : Course :=
  match value.text with
  | .ok s => next s
  | .error fault => fail fault

/-- What becomes of an expression one level down. -/
def ofExpression (inner : Context) : Expression → Course
  | .empty => done (.str "")
  | .absolute path | .relative path => ofExcept (Path.resolve inner.dataModel inner.scope path)
  | .call _ name args =>
      collect inner (args.map .argument) fun values =>
        lookup inner name fun f => invoke inner name f values

end Course

/-! ## The procedures -/

namespace Task

open Course

/-- What a procedure of the engine does in a context. -/
def course (ctx : Context) : Task → Course
  | resolve value =>
      match Descriptor.ofValue value with
      | .literal value => done value
      | .binding path => ofExcept (Path.resolve ctx.dataModel ctx.scope path)
      | .call c => start ctx (call c) done
  | call c =>
      descend ctx (some c.name) fun inner =>
        lookup inner c.name fun f =>
          collect inner (c.args.map resolve) fun values => invoke inner c.name f values
  | evaluate text =>
      descend ctx (some (Expression.read text.toList).source) fun inner =>
        ofExpression inner (Expression.read text.toList)
  | argument raw =>
      match Argument.read raw with
      | .placeholder body => start ctx (evaluate body) done
      | .reference text =>
          start ctx (evaluate text) fun found =>
            if found.isUndefined then ofExcept (Argument.literalValue text) else done found
      | .literal text => ofExcept (Argument.literalValue text)
  | format template => start ctx (expand template 0 template.toList []) done
  | expand template position rest shown =>
      match rest with
      | [] => done (.str (String.ofList shown))
      | '\\' :: '$' :: '{' :: rest =>
          start ctx (expand template (position + 3) rest (shown ++ ['$', '{'])) done
      | '$' :: '{' :: rest =>
          let body := Body.read rest
          let goOn : Course := start ctx (evaluate (String.ofList body.text)) fun value =>
            withText value fun s =>
              start ctx (expand template (position + 2 + body.source.length) body.rest (shown ++ s))
                done
          if body.closed then goOn else missBrace ctx template position goOn
      | c :: rest => start ctx (expand template (position + 1) rest (shown ++ [c])) done
  | resolveMapping value =>
      match value with
      | .map entries =>
          collect ctx (entries.map fun entry => resolve entry.2) fun values =>
            done (.map ((entries.map Prod.fst).zip values))
      | _ => fail .notMapping
  | findFunction name =>
      emit (.sought name) <|
        match ctx.registry.get? name with
        | some _ => done (.bool true)
        | none => log (.unknownFunction name) (done (.bool false))
  | listFunctions =>
      emit .listed <| done <| .map <|
        ctx.registry.names.map fun name => (.str name, .bool (ctx.functions.contains name))

/-- What the loop over a template does with a placeholder that is closed or that counts as closed. -/
def showPlaceholder (ctx : Context) (template : String) (position : Nat) (rest shown : List Char) :
    Course :=
  start ctx (evaluate (String.ofList (Body.read rest).text)) fun value =>
    withText value fun s =>
      start ctx
        (expand template (position + 2 + (Body.read rest).source.length) (Body.read rest).rest
          (shown ++ s)) done

theorem course_placeholder (ctx : Context) (template : String) (position : Nat)
    (rest shown : List Char) :
    (expand template position ('$' :: '{' :: rest) shown).course ctx =
      if (Body.read rest).closed then showPlaceholder ctx template position rest shown
      else missBrace ctx template position (showPlaceholder ctx template position rest shown) := by
  rw [course]
  rfl

/-! ## What the engine makes of a task -/

def perform (ctx : Context) : Task → Eval Value
  | resolve value => ctx.resolve value
  | call c => ctx.call c
  | evaluate expression => ctx.evaluate expression
  | argument raw => ctx.argument raw
  | format template => do return .str (← ctx.format template)
  | expand template position rest shown => do
      let others ← ctx.engine.expand ctx template position (Token.tokenize rest)
      return .str (String.ofList (shown ++ others))
  | resolveMapping value =>
      match value with
      | .map entries => do
          return .map (← entries.mapM fun (key, value) => do return (key, ← ctx.resolve value))
      | _ => Eval.fail .notMapping
  | findFunction name => ctx.lookupAnswer name
  | listFunctions => ctx.functionsAnswer

/-- Performing a mapping is what a resolver does with it. -/
theorem perform_resolveMapping (r : Resolver) (value : Value) :
    perform r.context (resolveMapping value) = r.resolveMapping value := by
  cases value <;> rfl

end Task

namespace Course

/-- The evaluation along a course, where the engine performs the tasks that it starts. -/
def eval : Course → Eval Value
  | done value => pure value
  | fail fault => Eval.fail fault
  | emit o rest => do Eval.emit o; rest.eval
  | note n next => do (next (← Eval.note n)).eval
  | start ctx task next => do (next (← task.perform ctx)).eval
  | attempt ctx blocks task next => do
      let result ← Eval.attempt (Eval.within blocks (task.perform ctx))
      (next result).eval

theorem eval_ofExcept (result : Except Fault Value) :
    (ofExcept result).eval = Eval.ofExcept result := by
  cases result <;> rfl

theorem eval_descend (ctx : Context) (expression : Option String) (next : Context → Course) :
    (descend ctx expression next).eval
      = ctx.descend expression >>= fun inner => (next inner).eval := by
  by_cases h : ctx.limit < ctx.depth + 1
  · rw [Context.descend_bind_of_le (by omega), descend, if_pos h]
    rfl
  · rw [Context.descend_bind_of_lt (by omega), descend, if_neg h]

theorem eval_lookup (ctx : Context) (name : String) (next : HostFunction → Course) :
    (lookup ctx name next).eval = ctx.lookup name >>= fun
      | some f => (next f).eval
      | none => pure .undefined := by
  rw [Context.lookup_bind, lookup, eval]
  cases ctx.registry.get? name <;> rfl

theorem eval_collect (ctx : Context) (tasks : List Task) (next : List Value → Course) :
    (collect ctx tasks next).eval
      = tasks.mapM (Task.perform ctx) >>= fun values => (next values).eval := by
  induction tasks generalizing next with
  | nil => rw [collect, List.mapM_nil, pure_bind]
  | cons task rest ih =>
    rw [collect, eval, List.mapM_cons, bind_assoc]
    congr 1
    funext value
    rw [ih, bind_assoc]
    simp only [pure_bind]

theorem eval_ofProgram (ctx : Context) (program : Program) :
    (ofProgram ctx program).eval = ctx.engine.run ctx program := by
  induction program with
  | done value => rfl
  | fail fault => rfl
  | record n next ih =>
    rw [ofProgram, eval, Engine.run]
    simp only [ih]
  | ask place request next ih =>
    have hanswer : (taskOf request).perform (ctx.placed place)
        = (ctx.placed place).engine.answer (ctx.placed place) request := by
      cases request <;> rfl
    rw [ofProgram, eval, Context.run_ask, hanswer]
    simp only [ih]

theorem eval_missBrace (ctx : Context) (template : String) (position : Nat) (rest : Course) :
    (missBrace ctx template position rest).eval
      = Engine.missBrace ctx template position >>= fun _ => rest.eval := by
  unfold missBrace Engine.missBrace
  split
  · exact (Eval.fail_bind ..).symm
  · rfl

theorem eval_withText (value : Value) (next : List Char → Course) :
    (withText value next).eval = Eval.ofExcept value.text >>= fun s => (next s).eval := by
  unfold withText
  cases value.text with
  | error fault => exact (Eval.fail_bind ..).symm
  | ok s => exact (pure_bind ..).symm

theorem eval_invoke (ctx : Context) (name : String) (f : HostFunction) (args : List Value) :
    (invoke ctx name f args).eval = ctx.invoke name f args := by
  rw [invoke, eval, eval_ofProgram]
  rfl

end Course

/-! ## A task and its course -/

namespace Task

open Course

theorem perform_resolve (ctx : Context) (value : Value) :
    (resolve value).perform ctx = ((resolve value).course ctx).eval := by
  rw [perform, Context.resolve_eq, course]
  cases Descriptor.ofValue value with
  | literal value => rfl
  | binding path => exact (eval_ofExcept _).symm
  | call c => exact (bind_pure _).symm

theorem perform_call (ctx : Context) (c : Call) :
    (call c).perform ctx = ((call c).course ctx).eval := by
  rw [perform, Context.call_eq, course, eval_descend]
  refine bind_congr fun inner => ?_
  rw [eval_lookup]
  refine bind_congr fun found => ?_
  cases found with
  | none => rfl
  | some f =>
    simp only [eval_collect, eval_invoke, List.mapM_map]
    rfl

theorem perform_evaluate (ctx : Context) (text : String) :
    (evaluate text).perform ctx = ((evaluate text).course ctx).eval := by
  rw [perform, Context.evaluate_eq, course, eval_descend]
  refine bind_congr fun inner => ?_
  cases Expression.read text.toList with
  | empty => rfl
  | absolute path => exact (eval_ofExcept _).symm
  | relative path => exact (eval_ofExcept _).symm
  | call source name args =>
    rw [ofExpression, eval_collect, List.mapM_map]
    refine bind_congr fun values => ?_
    rw [eval_lookup]
    refine bind_congr fun found => ?_
    cases found with
    | none => rfl
    | some f => exact (eval_invoke ..).symm

theorem perform_argument (ctx : Context) (raw : String) :
    (argument raw).perform ctx = ((argument raw).course ctx).eval := by
  rw [perform, course]
  unfold Context.argument Engine.argument
  cases Argument.read raw with
  | placeholder body => exact (bind_pure _).symm
  | literal text => exact (eval_ofExcept _).symm
  | reference text =>
    refine bind_congr fun found => ?_
    change _ = Course.eval (if found.isUndefined then _ else _)
    split
    · exact (eval_ofExcept _).symm
    · rfl

/-- The loop over a template, one token further. -/
theorem expand_cons (ctx : Context) (template : String) (position : Nat) (token : Token)
    (rest : List Token) (shown : List Char) :
    (do
      let others ← ctx.engine.expand ctx template position (token :: rest)
      return Value.str (String.ofList (shown ++ others))) = (do
      let s ← ctx.engine.render ctx template position token
      let others ← ctx.engine.expand ctx template (position + token.source.length) rest
      return Value.str (String.ofList ((shown ++ s) ++ others))) := by
  simp only [Engine.expand, bind_assoc, pure_bind, List.append_assoc]

theorem perform_expand (ctx : Context) (template : String) (position : Nat)
    (rest shown : List Char) :
    (expand template position rest shown).perform ctx
      = ((expand template position rest shown).course ctx).eval := by
  rw [perform]
  fun_cases Token.tokenize rest with
  | case1 =>
    rw [Engine.expand, pure_bind, List.append_nil]
    rfl
  | case2 rest =>
    rw [expand_cons]
    exact (bind_pure _).symm
  | case3 rest =>
    have hlength : position + (Token.placeholder (Body.read rest).text
        (Body.read rest).closed).source.length = position + 2 + (Body.read rest).source.length := by
      rw [Nat.add_assoc, Nat.add_comm 2]
      rfl
    rw [expand_cons, course, hlength]
    generalize Body.read rest = body
    cases hclosed : body.closed with
    | true =>
      simp only [Engine.render, Engine.shown, if_true, bind_assoc, eval]
      refine bind_congr fun value => ?_
      rw [eval_withText]
      exact bind_congr fun s => (bind_pure _).symm
    | false =>
      simp only [Engine.render, Engine.shown, Bool.false_eq_true, if_false, bind_assoc,
        eval_missBrace, eval]
      refine bind_congr fun _ => bind_congr fun value => ?_
      rw [eval_withText]
      exact bind_congr fun s => (bind_pure _).symm
  | case4 c rest h h' =>
    rw [expand_cons, course]
    · exact (bind_pure _).symm
    · exact h
    · exact h'

theorem perform_format (ctx : Context) (template : String) :
    (format template).perform ctx = ((format template).course ctx).eval := by
  rw [perform, course, eval]
  simp only [Context.format, Engine.format_eq_expand, perform, List.nil_append, bind_assoc,
    pure_bind]
  rfl

/-- Entries keep their keys, whatever their values come to. -/
theorem mapM_entries (ctx : Context) (entries : List (Value × Value)) :
    entries.mapM (fun (key, value) => do return (key, ← ctx.resolve value)) = (do
      let values ← (entries.map fun entry => resolve entry.2).mapM (perform ctx)
      return (entries.map Prod.fst).zip values) := by
  induction entries with
  | nil => rfl
  | cons entry rest ih =>
    simp only [List.map_cons, List.mapM_cons, ih, bind_assoc, pure_bind]
    rfl

theorem perform_mapping (ctx : Context) (value : Value) :
    (resolveMapping value).perform ctx = ((resolveMapping value).course ctx).eval := by
  cases value with
  | map entries =>
    rw [perform, course, eval_collect, mapM_entries, bind_assoc]
    rfl
  | _ => rfl

theorem perform_findFunction (ctx : Context) (name : String) :
    (findFunction name).perform ctx = ((findFunction name).course ctx).eval := by
  rw [perform, Context.lookupAnswer, Context.lookup_bind, course, eval]
  cases ctx.registry.get? name <;> rfl

/-- What the engine makes of a task is what its course makes of it. -/
theorem perform_eq (ctx : Context) (task : Task) :
    task.perform ctx = (task.course ctx).eval := by
  cases task with
  | resolve value => exact perform_resolve ctx value
  | call c => exact perform_call ctx c
  | evaluate expression => exact perform_evaluate ctx expression
  | argument raw => exact perform_argument ctx raw
  | format template => exact perform_format ctx template
  | expand template position rest shown => exact perform_expand ctx template position rest shown
  | resolveMapping value => exact perform_mapping ctx value
  | findFunction name => exact perform_findFunction ctx name
  | listFunctions => rfl

end Task

end LiveValue
