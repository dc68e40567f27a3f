import LiveValue.Fault
import LiveValue.Log.Event
import LiveValue.Moment
import LiveValue.Settings.Basic

/-!
# Host functions

A host function gets the values of its arguments and a view of the evaluation, and answers with a
program: it comes to a value or a fault, and on the way it may ask the engine to format, to resolve
or to evaluate something in the same place, with the same scope or another one and inside blocks of
variables of its own, or ask which functions there are. It goes on with the answer or, if the engine
stopped, with the fault, which it may pass on or not. Since it has no other way back into the
engine, what it does can be read off its program.
-/

namespace LiveValue

/-- What a host function sees of an evaluation. A scope of `null` is none. -/
structure View where
  dataModel : Value
  scope : Value
  settings : Settings
  depth : Int
  /-- The time that it is throughout the evaluation. -/
  clock : Moment
  /-- What is bound around the evaluation. -/
  bound : LogVariables

/-- Something that the engine can be asked for. -/
inductive Request where
  | format (template : String)
  | resolve (descriptor : Value)
  | evaluate (expression : String)
  /-- Whether there is a function of this name. -/
  | lookup (name : String)
  /-- The names of all functions there are, and whether the host gave them. -/
  | functions

/-- Where something is asked for: in another scope if one is given, and inside blocks of variables,
the innermost first. -/
structure Place where
  scope : Option Value
  blocks : List Fields

/-- Where the host function was called. -/
def Place.here : Place := ⟨none, []⟩

/-- What a recording host function leaves behind. -/
structure Note where
  name : String
  depth : Int
  args : List Value

/-- What a host function does. -/
inductive Program where
  | done (value : Value)
  | fail (fault : Fault)
  /-- Asks the engine somewhere, and goes on with the answer or with the fault that stopped it. -/
  | ask (place : Place) (request : Request) (next : Except Fault Value → Program)
  /-- Takes a note and goes on with the number of notes taken so far. -/
  | record (note : Note) (next : Nat → Program)

namespace Program

/-- The program that does nothing but come to a result. -/
def ofExcept : Except Fault Value → Program
  | .ok value => .done value
  | .error fault => .fail fault

/-- The program that asks one thing and comes to the answer, or passes the fault on. -/
def request (place : Place) (r : Request) : Program := .ask place r ofExcept

/-- The program that goes on with a text, unless there is none. -/
def withText (text : Except Fault (List Char)) (next : List Char → Program) : Program :=
  match text with
  | .ok s => next s
  | .error fault => .fail fault

end Program

/-- A function from the values of its arguments and a view of the evaluation. -/
abbrev HostFunction := List Value → View → Program

end LiveValue
