import LiveValue.Fault
import LiveValue.Value.Basic

/-!
# Reports

The documented errors, as the caller sees them: each belongs to a family, carries what its family
names, and has a message. `Fault.report?` and the loading of settings say which faults are reported
this way.
-/

namespace LiveValue

/-- The families of errors. Every error belongs to `general` too, and those that stop an
evaluation belong to `binding`. -/
inductive Report.Family where
  | general
  | config
  | binding
  | nesting
  | template
deriving DecidableEq

/-- An error of one family. -/
inductive Report where
  | general (message : String)
  | config (message : String) (field : Option String) (value : Value)
  | binding (message : String) (expression : Option String)
  | nesting (depth limit : Int) (expression : Option String)
  | template (reason template : String) (position : Int)

namespace Report

/-- The families of an error, the narrowest one first. -/
def families : Report → List Family
  | .general .. => [.general]
  | .config .. => [.config, .general]
  | .binding .. => [.binding, .general]
  | .nesting .. => [.nesting, .binding, .general]
  | .template .. => [.template, .binding, .general]

/-- What was being evaluated, said at the end of a message; nothing for an empty text. -/
def whileEvaluating : Option String → String
  | some expression => if expression.isEmpty then "" else " while evaluating: " ++ expression
  | none => ""

/-- A template with a caret under one of its places. -/
def pointAt (text : String) (position : Int) : String :=
  text ++ "\n" ++ String.ofList (List.replicate position.toNat ' ') ++ "^"

/-- The text of an error. A template is shown with a caret unless the place is its very start. -/
def message : Report → String
  | .general message | .config message _ _ | .binding message _ => message
  | .nesting depth limit expression =>
      s!"Resolution nesting depth {depth} exceeds limit of {limit}" ++ whileEvaluating expression
  | .template reason text position =>
      if 0 < position ∧ text ≠ "" then
        s!"{reason} at position {position}:\n" ++ pointAt text position
      else reason ++ ": " ++ text

end Report

/-- The report of a fault; faults of plain arithmetic and shape, and those of host functions, have
none. -/
def Fault.report? : Fault → Option Report
  | .nesting depth limit expression => some (.nesting depth limit expression)
  | .unterminated text position => some (.template "Unterminated placeholder" text position)
  | _ => none

end LiveValue
