import LiveValue.Settings.Basic
import LiveValue.Value.Basic

/-!
# Declared settings

The settings are declared as fields, each with a kind, bounds and a default. To read them from named
values is the work of a library, which converts values of any kind; how it does that is left to
`Conversions`. All that is wrong with the fields is reported, field by field.
-/

namespace LiveValue

/-- A value that does not do, what is wrong with it, and where it was given. -/
structure Violation where
  /-- The short name of what is wrong. -/
  code : String
  message : String
  place : List String
  input : Value

/-- All that is wrong, which is something. -/
structure Violations where
  first : Violation
  more : List Violation

namespace Violation

def location (v : Violation) : String := ".".intercalate v.place

def inside (part : String) (v : Violation) : Violation := { v with place := part :: v.place }

end Violation

namespace Violations

def toList (vs : Violations) : List Violation := vs.first :: vs.more

def inside (part : String) (vs : Violations) : Violations :=
  ⟨vs.first.inside part, vs.more.map (Violation.inside part)⟩

end Violations

/-- How a library converts values to those that fields have. -/
structure Conversions where
  /-- A value as an integer from a least one to a largest one. -/
  integer (least most : Nat) : Value → Except Violation Nat
  truthValue : Value → Except Violation Bool
  /-- The fields that a section has. -/
  fields : Value → Except Violation (List (Value × Value))

namespace Settings

def maxDepthField : String := "max_depth"

def strictTemplatesField : String := "strict_templates"

def readField {α : Type} (fields : List (Value × Value)) (name : String) (default : α)
    (convert : Value → Except Violation α) : Except Violation α :=
  match Value.field? name fields with
  | none => .ok default
  | some input => (convert input).mapError (Violation.inside name)

def depth (C : Conversions) : Value → Except Violation Nat := C.integer 1 maxDepthCeiling

/-- The settings that fields give, or all that is wrong with them. Other fields do not matter. -/
def ofEntries (C : Conversions) (fields : List (Value × Value)) : Except Violations Settings :=
  match readField fields maxDepthField standard.maxDepth (depth C),
    readField fields strictTemplatesField standard.strictTemplates C.truthValue with
  | .ok maxDepth, .ok strictTemplates => .ok ⟨maxDepth, strictTemplates⟩
  | .error v, .error w => .error ⟨v, [w]⟩
  | .error v, .ok _ | .ok _, .error v => .error ⟨v, []⟩

/-- The settings in the section that there is; the default ones if there is none. -/
def ofSection (C : Conversions) : Option Value → Except Violations Settings
  | none => .ok standard
  | some value => match C.fields value with
    | .ok fields => ofEntries C fields
    | .error v => .error ⟨v, []⟩

end Settings

end LiveValue
