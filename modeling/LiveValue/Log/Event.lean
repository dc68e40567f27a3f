import LiveValue.Entries
import LiveValue.Value.Basic

/-!
# Events

What the library reports while it works. An event has a level, a name and fields; a line of the log
is an event together with the blocks of variables that were open around it.
-/

namespace LiveValue

/-- How grave an event is. -/
inductive Level where
  | debug
  | info
  | warning
  | error
  | critical
deriving DecidableEq

def Level.name : Level → String
  | .debug => "debug"
  | .info => "info"
  | .warning => "warning"
  | .error => "error"
  | .critical => "critical"

/-- The number of a level; graver ones are larger. -/
def Level.number : Level → Int
  | .debug => 10
  | .info => 20
  | .warning => 30
  | .error => 40
  | .critical => 50

/-- Named values. -/
abbrev Fields := List (String × Value)

/-- Fields with others behind them, which only count under names that are still free. -/
def Fields.withDefaults (fields defaults : Fields) : Fields :=
  fields ++ defaults.filter fun (name, _) => !fields.any fun field => field.1 == name

/-- Something that happened. -/
inductive Event where
  | unknownFunction (name : String)
  | unterminatedPlaceholder (position : Nat)
  | nestingExceeded (depth limit : Int) (expression : Option String)
  | actionEventBuilt (name : Value) (keys : List Value)
  | configFileEmpty (path : String)
  | noProjectConfig

namespace Event

/-- The level that an event is logged at. -/
def level : Event → Level
  | .nestingExceeded .. | .configFileEmpty _ => .warning
  | .noProjectConfig => .info
  | _ => .debug

def name : Event → String
  | .unknownFunction _ => "unknown_function"
  | .unterminatedPlaceholder _ => "unterminated_placeholder"
  | .nestingExceeded .. => "recursion_limit_exceeded"
  | .actionEventBuilt .. => "action_event_built"
  | .configFileEmpty _ => "config_file_empty"
  | .noProjectConfig => "No project configuration found, using defaults."

def fields : Event → Fields
  | .unknownFunction name => [("name", .str name)]
  | .unterminatedPlaceholder position => [("position", .ofNat position)]
  | .nestingExceeded depth limit expression =>
      [("depth", .int depth), ("limit", .int limit),
        ("expression", (expression.map Value.str).getD .null)]
  | .actionEventBuilt name keys => [("event_name", name), ("context_keys", .list keys)]
  | .configFileEmpty path => [("path", .str path)]
  | .noProjectConfig => []

end Event

/-! ## Variables -/

/-- What the names of variables stand for. -/
abbrev LogVariables := String → Option Value

namespace LogVariables

/-- No name stands for anything. -/
def unbound : LogVariables := fun _ => none

/-- Inside a block its own variables stand before those around it. -/
def enter (fresh : Fields) (outer : LogVariables) : LogVariables := fun name =>
  (Entries.find? name fresh.reverse).or (outer name)

/-- Inside blocks, the innermost first. -/
def enterAll (blocks : List Fields) (outer : LogVariables) : LogVariables :=
  blocks.foldr enter outer

theorem enterAll_append (inner outer : List Fields) (around : LogVariables) :
    enterAll (inner ++ outer) around = enterAll inner (enterAll outer around) :=
  List.foldr_append

end LogVariables

/-- An event and the blocks of variables that were open around it, the innermost first. -/
structure Line where
  event : Event
  blocks : List Fields

namespace Line

/-- The variables of all blocks. -/
def bound (line : Line) : Fields := line.blocks.foldr Entries.writeAll []

def fields (line : Line) : Fields := line.event.fields.withDefaults line.bound

/-- The line within more blocks. -/
def within (blocks : List Fields) (line : Line) : Line :=
  { line with blocks := line.blocks ++ blocks }

@[simp]
theorem within_nil (line : Line) : line.within [] = line := by
  rw [within, List.append_nil]

/-- A name stands for what the innermost block says that binds it. -/
theorem find?_bound (line : Line) (name : String) :
    Entries.find? name line.bound = LogVariables.enterAll line.blocks .unbound name := by
  unfold bound LogVariables.enterAll
  induction line.blocks with
  | nil => rfl
  | cons fresh outer ih =>
    rw [List.foldr_cons, List.foldr_cons, Entries.find?_writeAll, ih]
    rfl

end Line

end LiveValue
