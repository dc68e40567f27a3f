import LiveValue.Resolver
import LiveValue.Value.Order

/-!
# Action events

When an action fires, its definition may name an event and describe values to go with it. The event
then carries the resolved values, and its payload leaves out those that are undefined.
-/

namespace LiveValue

/-- An event of an action. -/
structure ActionEvent where
  name : Value
  surfaceId : String
  sourceComponentId : String
  context : List (Value × Value)
  moment : Moment

namespace ActionEvent

def definedContext (event : ActionEvent) : List (Value × Value) :=
  event.context.filter fun entry => !entry.2.isUndefined

/-- The payload, unless the moment has no timestamp. -/
def payload (event : ActionEvent) : Except Fault Value := do
  let timestamp ← event.moment.timestamp
  return .ofFields [("action", .ofFields [
    ("name", event.name),
    ("surfaceId", .str event.surfaceId),
    ("sourceComponentId", .str event.sourceComponentId),
    ("timestamp", .str timestamp),
    ("context", .map event.definedContext)])]

/-! ## Building an event -/

/-- What an action says about its event. -/
structure Definition where
  name : Value
  context : List (Value × Value)

/-- The event that a mapping defines: it needs a name that is something, and what is not a mapping
describes no values. -/
def Definition.ofEntries? (event : List (Value × Value)) : Option Definition :=
  match Value.field? "name" event with
  | some name =>
      if name.isTruthy then
        some ⟨name, match Value.field? "context" event with
          | some (.map context) => context
          | _ => []⟩
      else none
  | none => none

/-- The event that an action defines, if it defines one. An action is nothing at all or a
mapping. -/
def Definition.ofAction? (action : Value) : Except Fault (Option Definition) :=
  match action with
  | .map entries =>
      match Value.field? "event" entries with
      | some (.map event) => .ok (Definition.ofEntries? event)
      | _ => .ok none
  | action => if action.isTruthy then .error .notMapping else .ok none

/-- The variables bound while an event is built. -/
def boundFields (surfaceId sourceComponentId : String) : Fields :=
  [("surface_id", .str surfaceId), ("source_component_id", .str sourceComponentId)]

/-- Resolves the entries of a definition in order and logs that the event was built. -/
def resolveContext (r : Resolver) (definition : Definition) : Eval (List (Value × Value)) := do
  let context ← r.resolveEntries definition.context
  let keys ← Eval.ofExcept (Value.sortKeys (context.map Prod.fst))
  Eval.log (.actionEventBuilt definition.name keys)
  return context

/-- The event of an action that fires at a moment. -/
def build (r : Resolver) (action : Value) (surfaceId sourceComponentId : String)
    (moment : Moment) : Eval (Option ActionEvent) := do
  match ← Eval.ofExcept (Definition.ofAction? action) with
  | none => return none
  | some definition => do
      let fresh := boundFields surfaceId sourceComponentId
      let context ← Eval.within [fresh] (resolveContext (r.within fresh) definition)
      return some ⟨definition.name, surfaceId, sourceComponentId, context, moment⟩

end ActionEvent

end LiveValue
