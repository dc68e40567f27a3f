import LiveValue.Descriptor
import LiveValue.Eval
import LiveValue.Path
import LiveValue.Template.Argument
import LiveValue.Template.Body

/-!
# The engine

Descriptors, expressions, arguments and templates are evaluated by each other and by host
functions. Every way around leads through an expression or a described call, and both go one level
down. So an `Engine` is what can be done with expressions and calls within a number of levels: with
none left it refuses both, and each further level is defined from the one below it.

* `Engine.resolve`, `Engine.argument`, `Engine.format`, `Engine.run`: what follows from a way to
  evaluate expressions and calls;
* `Engine.next`: one more level;
* `Context.engine`: as many levels as a context allows, and the public operations on a context;
* `Context.evaluate_eq`, `Context.call_eq`, `Context.resolve_eq`: these operations in terms of each
  other, without levels.
-/

namespace LiveValue

open Template

namespace Context

/-- Stops because the next level would lie beyond the limit. -/
def refuse {α : Type} (ctx : Context) (expression : Option String) : Eval α := do
  Eval.log (.nestingExceeded (ctx.depth + 1) ctx.limit expression)
  Eval.fail (.nesting (ctx.depth + 1) ctx.limit expression)

/-- The context one level deeper, unless that lies beyond the limit. -/
def descend (ctx : Context) (expression : Option String) : Eval Context :=
  if ctx.limit < ctx.depth + 1 then ctx.refuse expression else pure ctx.deeper

theorem refuse_bind {α β : Type} (ctx : Context) (expression : Option String) (f : α → Eval β) :
    ctx.refuse expression >>= f = ctx.refuse expression := by
  simp only [refuse, bind_assoc, Eval.fail_bind]

theorem descend_of_lt {ctx : Context} (h : ctx.depth < ctx.limit) (expression : Option String) :
    ctx.descend expression = pure ctx.deeper :=
  if_neg (by omega)

theorem descend_of_le {ctx : Context} (h : ctx.limit ≤ ctx.depth) (expression : Option String) :
    ctx.descend expression = ctx.refuse expression :=
  if_pos (by omega)

/-- The function of a name. That there is none is logged. -/
def lookup (ctx : Context) (name : String) : Eval (Option HostFunction) := do
  Eval.emit (.sought name)
  match ctx.registry.get? name with
  | some f => return some f
  | none => do
      Eval.log (.unknownFunction name)
      return none

/-- Whether there is a function of a name. -/
def lookupAnswer (ctx : Context) (name : String) : Eval Value := do
  return .bool (← ctx.lookup name).isSome

/-- The names of all functions, and whether the host gave them. -/
def functionsAnswer (ctx : Context) : Eval Value := do
  Eval.emit .listed
  return .map (ctx.registry.names.map fun name => (.str name, .bool (ctx.functions.contains name)))

/-- The value at a path of the data model or the scope. -/
def data (ctx : Context) (path : String) : Eval Value :=
  Eval.ofExcept (Path.resolve ctx.dataModel ctx.scope path)

end Context

/-- A way to evaluate expressions and described calls. -/
structure Engine where
  expression : Context → String → Eval Value
  call : Context → Call → Eval Value

namespace Engine

/-! ## What follows from expressions and calls -/

def resolve (e : Engine) (ctx : Context) (value : Value) : Eval Value :=
  match Descriptor.ofValue value with
  | .literal value => pure value
  | .binding path => ctx.data path
  | .call call => e.call ctx call

def argument (e : Engine) (ctx : Context) (raw : String) : Eval Value :=
  match Argument.read raw with
  | .placeholder body => e.expression ctx body
  | .reference text => do
      let found ← e.expression ctx text
      if found.isUndefined then Eval.ofExcept (Argument.literalValue text) else return found
  | .literal text => Eval.ofExcept (Argument.literalValue text)

/-- Says that a placeholder is never closed: a fault of a strict template, else an event. -/
def missBrace (ctx : Context) (template : String) (position : Nat) : Eval Unit :=
  if ctx.settings.strictTemplates then Eval.fail (.unterminated template position)
  else Eval.log (.unterminatedPlaceholder position)

/-- What is shown in place of a placeholder that starts at a position of a template. -/
def shown (e : Engine) (ctx : Context) (template : String) (position : Nat) (body : List Char)
    (closed : Bool) : Eval (List Char) := do
  unless closed do missBrace ctx template position
  let value ← e.expression ctx (String.ofList body)
  Eval.ofExcept value.text

/-- Goes over a template from an index on, with what is shown of the text before. -/
def pass (e : Engine) (ctx : Context) (template : List Char) (index : Nat) (output : List Char) :
    Eval (List Char) :=
  if h : index < template.length then
    if ['\\', '$', '{'] <+: template.drop index then
      e.pass ctx template (index + 3) (output ++ ['$', '{'])
    else if ['$', '{'] <+: template.drop index then do
      let body := Body.startingAt template (index + 2)
      let text ← e.shown ctx (String.ofList template) index body.text body.closed
      have := Body.lt_stop h (Nat.lt_add_of_pos_right Nat.two_pos)
      e.pass ctx template (Body.stop template (index + 2)) (output ++ text)
    else e.pass ctx template (index + 1) (output ++ [template[index]])
  else return output
termination_by template.length - index

def format (e : Engine) (ctx : Context) (template : String) : Eval String := do
  return String.ofList (← e.pass ctx template.toList 0 [])

/-- The answer to a request of a host function. -/
def answer (e : Engine) (ctx : Context) : Request → Eval Value
  | .format template => do return .str (← e.format ctx template)
  | .resolve descriptor => e.resolve ctx descriptor
  | .evaluate expression => e.expression ctx expression
  | .lookup name => ctx.lookupAnswer name
  | .functions => ctx.functionsAnswer

/-- Runs what a host function does in the context that it was given. -/
def run (e : Engine) (ctx : Context) : Program → Eval Value
  | .done value => pure value
  | .fail fault => Eval.fail fault
  | .ask place request next => do
      let result ← Eval.attempt (Eval.within place.blocks (e.answer (ctx.placed place) request))
      run e ctx (next result)
  | .record note next => do
      let taken ← Eval.note note
      run e ctx (next taken)

def invoke (e : Engine) (ctx : Context) (name : String) (f : HostFunction) (args : List Value) :
    Eval Value := do
  Eval.emit (.invoked ⟨name, args, ctx⟩)
  e.run ctx (f args ctx.toView)

/-! ## Levels -/

/-- The engine without levels refuses everything that needs one. -/
def exhausted : Engine where
  expression ctx text := ctx.refuse (some (Expression.read text.toList).source)
  call ctx call := ctx.refuse (some call.name)

/-- One more level. A written call resolves its arguments before it looks for its function, a
described call looks for its function first. -/
def next (deeper : Engine) : Engine where
  expression ctx text := do
    let expression := Expression.read text.toList
    let inner ← ctx.descend (some expression.source)
    match expression with
    | .empty => return .str ""
    | .absolute path | .relative path => inner.data path
    | .call _ name args => do
        let values ← args.mapM (deeper.argument inner)
        match ← inner.lookup name with
        | some f => deeper.invoke inner name f values
        | none => return .undefined
  call ctx call := do
    let inner ← ctx.descend (some call.name)
    match ← inner.lookup call.name with
    | some f => do
        let values ← call.args.mapM (deeper.resolve inner)
        deeper.invoke inner call.name f values
    | none => return .undefined

/-- The engine of a number of levels. A level is only looked at when it is entered, so there may be
any number of them. -/
def ofLevels : Nat → Engine
  | 0 => exhausted
  | levels + 1 => {
      expression := fun ctx text => (ofLevels levels).next.expression ctx text
      call := fun ctx call => (ofLevels levels).next.call ctx call }

@[simp]
theorem ofLevels_zero : ofLevels 0 = exhausted := rfl

@[simp]
theorem ofLevels_succ (levels : Nat) : ofLevels (levels + 1) = (ofLevels levels).next := rfl

end Engine

/-! ## Operations on a context -/

namespace Context

/-- The engine with all the levels that a context has left. -/
def engine (ctx : Context) : Engine := Engine.ofLevels ctx.remaining

/-- Resolves what a value describes. -/
def resolve (ctx : Context) (value : Value) : Eval Value := ctx.engine.resolve ctx value

def evaluate (ctx : Context) (expression : String) : Eval Value :=
  ctx.engine.expression ctx expression

def call (ctx : Context) (call : Call) : Eval Value := ctx.engine.call ctx call

def argument (ctx : Context) (raw : String) : Eval Value := ctx.engine.argument ctx raw

def format (ctx : Context) (template : String) : Eval String := ctx.engine.format ctx template

def invoke (ctx : Context) (name : String) (f : HostFunction) (args : List Value) : Eval Value :=
  ctx.engine.invoke ctx name f args

/-- Applies a function that is at hand, without looking it up. -/
def apply (ctx : Context) (f : HostFunction) (args : List Value) : Eval Value :=
  ctx.engine.run ctx (f args ctx.toView)

/-! ## The levels do not show

A context has as many levels as it can go down, so an engine runs out of them exactly where the
descent is refused anyway. In terms of contexts alone, the operations satisfy these equations. -/

theorem engine_of_le {ctx : Context} (h : ctx.limit ≤ ctx.depth) :
    ctx.engine = Engine.exhausted := by
  rw [engine, remaining, Int.toNat_of_nonpos (by omega), Engine.ofLevels_zero]

theorem engine_of_lt {ctx : Context} (h : ctx.depth < ctx.limit) :
    ctx.engine = ctx.deeper.engine.next := by
  rw [engine, ← remaining_deeper ctx h, Engine.ofLevels_succ, engine]

theorem engine_placed (ctx : Context) (place : Place) : (ctx.placed place).engine = ctx.engine := by
  rw [engine, remaining_placed, engine]

theorem evaluate_eq (ctx : Context) (text : String) :
    ctx.evaluate text = (do
      let expression := Expression.read text.toList
      let inner ← ctx.descend (some expression.source)
      match expression with
      | .empty => return .str ""
      | .absolute path | .relative path => inner.data path
      | .call _ name args => do
          let values ← args.mapM inner.argument
          match ← inner.lookup name with
          | some f => inner.invoke name f values
          | none => return .undefined) := by
  rcases Int.lt_or_le ctx.depth ctx.limit with h | h
  · simp only [evaluate, engine_of_lt h, Engine.next, descend_of_lt h, pure_bind]
    rfl
  · simp only [evaluate, engine_of_le h, Engine.exhausted, descend_of_le h, refuse_bind]

theorem call_eq (ctx : Context) (call : Call) :
    ctx.call call = (do
      let inner ← ctx.descend (some call.name)
      match ← inner.lookup call.name with
      | some f => do
          let values ← call.args.mapM inner.resolve
          inner.invoke call.name f values
      | none => return .undefined) := by
  rcases Int.lt_or_le ctx.depth ctx.limit with h | h
  · simp only [Context.call, engine_of_lt h, Engine.next, descend_of_lt h, pure_bind]
    rfl
  · simp only [Context.call, engine_of_le h, Engine.exhausted, descend_of_le h, refuse_bind]

theorem resolve_eq (ctx : Context) (value : Value) :
    ctx.resolve value = match Descriptor.ofValue value with
      | .literal value => pure value
      | .binding path => ctx.data path
      | .call call => ctx.call call := by
  rfl

theorem run_ask {ctx : Context} {place : Place} {request : Request}
    {next : Except Fault Value → Program} :
    ctx.engine.run ctx (.ask place request next) = (do
      let result ← Eval.attempt (Eval.within place.blocks
        ((ctx.placed place).engine.answer (ctx.placed place) request))
      ctx.engine.run ctx (next result)) := by
  rw [engine_placed]
  rfl

end Context

end LiveValue
