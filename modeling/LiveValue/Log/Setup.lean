import LiveValue.Log.Bindings
import LiveValue.Log.Message

/-!
# The set-up of logging

Logging goes through one handler. Its form and level come from the caller or from two variables of
the environment, and setting it up again replaces what was there. In JSON form every record is
rendered twice: as the event of an outer record that carries the bound variables once more.
-/

namespace LiveValue.Log

/-- The variables of the environment that logging looks at. -/
structure Variables where
  level : Option String
  format : Option String

/-- A handler: what it lets through, and whether it writes JSON. -/
structure Handler where
  level : Int
  json : Bool
deriving DecidableEq

/-- A set-up: what the root lets through, and its handlers. How loggers write their events before
they come to a handler is set as well, earlier and even by a call that fails; that is not told
here. -/
structure Setup where
  rootLevel : Int
  handlers : List Handler
deriving DecidableEq

namespace Setup

def initial : Setup := ⟨Level.warning.number, []⟩

/-- The capitals of a letter. Of the letters beyond ASCII only those change whose capitals are in
ASCII: the names of levels have no others. -/
def capitals : Char → List Char
  | 'ı' => ['I']
  | 'ſ' => ['S']
  | 'ß' => ['S', 'S']
  | 'ﬀ' => ['F', 'F']
  | 'ﬁ' => ['F', 'I']
  | 'ﬂ' => ['F', 'L']
  | 'ﬃ' => ['F', 'F', 'I']
  | 'ﬄ' => ['F', 'F', 'L']
  | 'ﬅ' => ['S', 'T']
  | 'ﬆ' => ['S', 'T']
  | c => [c.toUpper]

def inCapitals (text : String) : String := String.ofList (text.toList.flatMap capitals)

def levelNumbers : List (String × Int) :=
  [("CRITICAL", 50), ("FATAL", 50), ("ERROR", 40), ("WARNING", 30), ("WARN", 30), ("INFO", 20),
    ("DEBUG", 10), ("NOTSET", 0)]

/-- Two names stand for something that is no level. -/
def misleadingNames : List (String × Failure) :=
  [("BASIC_FORMAT", .levelName), ("_STYLES", .levelKind)]

/-- The level that a text names, in capitals or not; any other text stands for `INFO`. -/
def levelOfName (text : String) : Except Failure Int :=
  let name := inCapitals text
  match misleadingNames.lookup name with
  | some failure => .error failure
  | none => .ok ((levelNumbers.lookup name).getD Level.info.number)

def levelOfVariables (vars : Variables) : Except Failure Int :=
  match vars.level with
  | some text => levelOfName text
  | none => .ok Level.info.number

def asksForJson (vars : Variables) : Bool :=
  vars.format.any fun text => text.map Char.toLower == "json"

def removeHandler (setup : Setup) (handler : Handler) : Setup :=
  { setup with handlers := setup.handlers.erase handler }

def addHandler (setup : Setup) (handler : Handler) : Setup :=
  { setup with handlers := setup.handlers ++ [handler] }

/-- The level that the caller gives, else that of the environment. -/
def chosenLevel (vars : Variables) (level : Option Int) : Except Failure Int :=
  match level with
  | some number => .ok number
  | none => levelOfVariables vars

/-- Sets logging up: the handlers that there are go one after the other, whoever added them, and a
new one at the level of the root takes their place. -/
def configure (setup : Setup) (vars : Variables) (forceJson : Bool) (level : Option Int) :
    Except Failure Setup := do
  let number ← chosenLevel vars level
  let leveled := { setup with rootLevel := number }
  let cleared := leveled.handlers.foldl removeHandler leveled
  return cleared.addHandler ⟨number, forceJson || asksForJson vars⟩

end Setup

/-! ## Records -/

/-- Something to be logged. -/
structure Entry where
  logger : Option String
  level : Level
  event : String
  args : List Value
  fields : Fields

/-- What comes out of a handler: a line for the console, or a record within a record. -/
inductive Output where
  | console
  | json (inner outer : Fields)

namespace Entry

/-- The names that a field of an entry cannot have. -/
def takenNames : List String := ["event", "method_name", "self"]

/-- The fields that every record sets itself, and the one that asks for a trace of the calls.
Neither the time nor a trace is told here. -/
def ownNames : List String := ["level", "logger", "timestamp", "stack_info"]

/-- The field that asks for the trace of an exception. An inner record does not keep it. -/
def exceptionName : String := "exc_info"

def origin (entry : Entry) : Fields :=
  [("level", .str entry.level.name), ("logger", .str (entry.logger.getD "root"))]

def record (entry : Entry) (fields : Fields) : Fields :=
  (fields.filter fun (name, _) => !ownNames.contains name) ++ entry.origin

def output (entry : Entry) (vars : Fields) (message : String) (handler : Handler) : Output :=
  if handler.json then
    let fields : Fields := ("event", .str message) :: entry.fields
    .json (entry.record ((fields.withDefaults vars).filter fun (name, _) => name != exceptionName))
      (entry.record (vars.filter fun (name, _) => name != "event"))
  else .console

end Entry

/-- Logs an entry: what comes out of the handlers that its level reaches. -/
def Setup.emit (setup : Setup) (vars : Fields) (entry : Entry) :
    Except Failure (List Output) := do
  if entry.fields.any fun (name, _) => Entry.takenNames.contains name then .error .fieldName
  else
    let message ← Message.format entry.event entry.args
    if entry.level.number < setup.rootLevel then return []
    else
      let reached := setup.handlers.filter fun handler => handler.level ≤ entry.level.number
      return reached.map (entry.output vars message)

end LiveValue.Log
