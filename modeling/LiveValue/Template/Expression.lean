import LiveValue.Template.Arguments

/-!
# Expressions

The body of a placeholder is nothing, a path, or a call of a function by its name with a written
argument list. Reading never fails: whatever has no other form is a relative path.
-/

namespace LiveValue.Template

/-- A placeholder body, read. -/
inductive Expression where
  | empty
  | absolute (path : String)
  | relative (path : String)
  | call (source name : String) (args : List String)
deriving DecidableEq

namespace Expression

def isNameStart (c : Char) : Bool := c.isAlpha || c == '_'

def isNameRest (c : Char) : Bool := c.isAlphanum || c == '_'

def call? (s : List Char) : Option (List Char × List Char) :=
  match s.span isNameRest with
  | (c :: name, '(' :: rest) =>
      if isNameStart c ∧ rest.getLast? = some ')' then some (c :: name, rest.dropLast) else none
  | _ => none

/-- The expression of a text without blanks around it. -/
def ofTrimmed (s : List Char) : Expression :=
  match s with
  | [] => .empty
  | '/' :: _ => .absolute (String.ofList s)
  | _ =>
      match call? s with
      | some (name, args) =>
          .call (String.ofList s) (String.ofList name) ((Arguments.split args).map String.ofList)
      | none => .relative (String.ofList s)

def read (body : List Char) : Expression := ofTrimmed (Text.trim body)

def source : Expression → String
  | .empty => ""
  | .absolute path | .relative path => path
  | .call source _ _ => source

end Expression

end LiveValue.Template
