import LiveValue.Template.Expression
import LiveValue.Value.Numeric

/-!
# Written arguments

An argument of a written call is a placeholder, a reference, or a literal. A reference is looked up
first; where that finds nothing, its text counts as a literal as well.
-/

namespace LiveValue.Template

/-- A written argument. -/
inductive Argument where
  | placeholder (body : String)
  | reference (text : String)
  | literal (text : String)
deriving DecidableEq

namespace Argument

/-- The argument of a text without blanks around it. -/
def ofTrimmed (s : List Char) : Argument :=
  match s with
  | '$' :: '{' :: rest =>
      if rest.getLast? = some '}' then .placeholder (String.ofList rest.dropLast)
      else .literal (String.ofList s)
  | c :: _ =>
      if c = '/' ∨ Expression.isNameStart c then .reference (String.ofList s)
      else .literal (String.ofList s)
  | [] => .literal ""

def read (raw : String) : Argument := ofTrimmed (Text.trim raw.toList)

def keyword? (text : String) : Option Value :=
  if text = "true" then some (.bool true)
  else if text = "false" then some (.bool false)
  else if text = "null" then some .null
  else none

/-- The content of a text that starts and ends with the same quote; a quote alone is such a text. -/
def quoted? (s : List Char) : Option (List Char) :=
  match s with
  | c :: _ =>
      if (Text.Quote.ofChar? c).isSome ∧ s.getLast? = some c then Text.unquote? s else none
  | [] => none

/-- The value of a literal: a quoted text, a word, nothing, a number, or else the text itself. -/
def literalValue (text : String) : Except Fault Value :=
  match quoted? text.toList with
  | some s => .ok (.str (String.ofList s))
  | none =>
      match keyword? text with
      | some value => .ok value
      | none =>
          if text = "" then .ok .undefined
          else do
            match ← Number.parse text.toList with
            | some n => return .number n
            | none => return .str text

end Argument

end LiveValue.Template
