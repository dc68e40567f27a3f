import LiveValue.Settings.Declaration
import LiveValue.Settings.IntegerText

/-!
# Validation of settings

One way to convert the values of fields: where the meaning is clear a value is converted, an
integral number or its text to an integer, a one, a zero or a usual word to a truth value.
-/

namespace LiveValue

/-- What is wrong with a value. -/
inductive Violation.Kind where
  | notInteger
  | unreadableInteger
  | oversizedInteger
  | fractionalInteger
  | notFinite
  | tooSmall (least : Nat)
  | tooLarge (most : Nat)
  | notTruthValue
  | unreadableTruthValue
  | notSettings
  | frozen
deriving DecidableEq

namespace Violation

def Kind.code : Kind → String
  | .notInteger => "int_type"
  | .unreadableInteger => "int_parsing"
  | .oversizedInteger => "int_parsing_size"
  | .fractionalInteger => "int_from_float"
  | .notFinite => "finite_number"
  | .tooSmall _ => "greater_than_equal"
  | .tooLarge _ => "less_than_equal"
  | .notTruthValue => "bool_type"
  | .unreadableTruthValue => "bool_parsing"
  | .notSettings => "model_type"
  | .frozen => "frozen_instance"

def Kind.message : Kind → String
  | .notInteger => "Input should be a valid integer"
  | .unreadableInteger =>
      "Input should be a valid integer, unable to parse string as an integer"
  | .oversizedInteger => "Unable to parse input string as an integer, exceeded maximum size"
  | .fractionalInteger => "Input should be a valid integer, got a number with a fractional part"
  | .notFinite => "Input should be a finite number"
  | .tooSmall least => s!"Input should be greater than or equal to {least}"
  | .tooLarge most => s!"Input should be less than or equal to {most}"
  | .notTruthValue => "Input should be a valid boolean"
  | .unreadableTruthValue => "Input should be a valid boolean, unable to interpret input"
  | .notSettings => "Input should be a valid dictionary or instance of EngineSettings"
  | .frozen => "Instance is frozen"

def Kind.violation (kind : Kind) (input : Value) : Violation :=
  ⟨kind.code, kind.message, [], input⟩

end Violation

namespace Settings

/-! ## Texts -/

/-- Reads a value as a text: a string, or a byte string in UTF-8. `unreadable` is what is wrong with
other byte strings, `other` with other values. -/
def readText {α : Type} (read : List Char → Except Violation.Kind α)
    (unreadable other : Violation.Kind) (value : Value) : Except Violation.Kind α :=
  match value with
  | .str s => read s.toList
  | .bytes octets => match String.fromUTF8? octets.toByteArray with
    | some s => read s.toList
    | none => .error unreadable
  | _ => .error other

/-! ## Integers -/

/-- The integers that binary64 numbers are converted to lie strictly between this bound and its
negative. -/
def wordBound : Int := Nat.pow 2 63

def integerOfText (text : List Char) : Except Violation.Kind Int :=
  match IntegerText.read text with
  | .ok i => .ok i
  | .error .unreadable => .error .unreadableInteger
  | .error .oversized => .error .oversizedInteger

/-- The integer that a binary64 number is equal to. -/
def integerOfFloat (x : Binary64) : Except Violation.Kind Int :=
  match x with
  | .finite .. => match x.toInt? with
    | some i => if -wordBound < i ∧ i < wordBound then .ok i else .error .oversizedInteger
    | none => .error .fractionalInteger
  | _ => .error .notFinite

def integer (value : Value) : Except Violation.Kind Int :=
  match value with
  | .bool b => .ok (if b then 1 else 0)
  | .number (.int i) => .ok i
  | .number (.float x) => integerOfFloat x
  | value => readText integerOfText .unreadableInteger .notInteger value

def bounded (least most : Nat) (i : Int) : Except Violation.Kind Nat :=
  if i < least then .error (.tooSmall least)
  else if (most : Int) < i then .error (.tooLarge most)
  else .ok i.toNat

/-- What is wrong with a value itself. -/
def blame {α : Type} (input : Value) (converted : Except Violation.Kind α) : Except Violation α :=
  converted.mapError fun kind => kind.violation input

/-- The name under which the undefined value is reported in place of an integer. -/
def undefinedName : String := "undefined"

/-- A value as an integer within bounds. The undefined value goes by its name, which no bound holds
for. -/
def boundedInteger (least most : Nat) (value : Value) : Except Violation Nat :=
  if value.isUndefined then blame (.str undefinedName) (.error .oversizedInteger)
  else blame value (integer value >>= bounded least most)

/-! ## Truth values -/

def falseWords : List String := ["0", "off", "f", "false", "n", "no"]

def trueWords : List String := ["1", "on", "t", "true", "y", "yes"]

/-- A text as a truth value, in capitals or not. -/
def truthValueOfText (text : List Char) : Except Violation.Kind Bool :=
  let word := String.ofList (text.map Char.toLower)
  if word ∈ falseWords then .ok false
  else if word ∈ trueWords then .ok true
  else .error .unreadableTruthValue

/-- A number as a truth value: one or zero, in the range in which binary64 numbers are
converted. -/
def truthValueOfInteger (i : Int) : Except Violation.Kind Bool :=
  if i = 0 then .ok false
  else if i = 1 then .ok true
  else if -wordBound ≤ i ∧ i < wordBound then .error .unreadableTruthValue
  else .error .notTruthValue

def truthValue (value : Value) : Except Violation Bool :=
  blame value <| match value with
    | .bool b => .ok b
    | .number (.int i) => truthValueOfInteger i
    | .number (.float x) => match integerOfFloat x with
      | .ok i => truthValueOfInteger i
      | .error _ => .error .notTruthValue
    | value => readText truthValueOfText .unreadableTruthValue .notTruthValue value

/-! ## Fields -/

/-- The fields of a section, which has to be a mapping. -/
def fieldsOf (value : Value) : Except Violation (List (Value × Value)) :=
  match value with
  | .map fields => .ok fields
  | value => .error (Violation.Kind.notSettings.violation value)

/-- Settings never change: what is wrong with assigning to a name. Nothing is, if it starts with an
underscore, as it is no field then. -/
def assign (_ : Settings) (name : String) (value : Value) : Option Violation :=
  if name.toList.head? = some '_' then none
  else some ((Violation.Kind.frozen.violation value).inside name)

end Settings

/-- The conversions of a library that converts a value where the meaning is clear. -/
def Conversions.lax : Conversions where
  integer := Settings.boundedInteger
  truthValue := Settings.truthValue
  fields := Settings.fieldsOf

end LiveValue
