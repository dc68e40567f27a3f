import LiveValue.Text.Literal
import LiveValue.Value.Basic

/-!
# Messages with arguments

The name of an event may have places for arguments: `%s` for the written form of any value, `%d`
for an integer, and `%%` for a percent sign. Places and arguments have to match.
-/

namespace LiveValue.Log

/-- Why something cannot be logged or set up. -/
inductive Failure where
  /-- Places and arguments do not match in number or kind. -/
  | arguments
  /-- A percent sign is followed by something that is no place. -/
  | place
  /-- A field has a name that is taken. -/
  | fieldName
  /-- A text stands where a level is needed and names none. -/
  | levelName
  /-- Something other than a number or a text stands where a level is needed. -/
  | levelKind
deriving DecidableEq

namespace Message

def number : Number → List Char
  | .int i => (if i < 0 then ['-'] else []) ++ Decimal.digits i.natAbs
  | .float x => Layout.exact.write x

def join (parts : List (List Char)) : List Char := [',', ' '].intercalate parts

mutual
/-- The written form of a value as a part of another. -/
def literal : Value → List Char
  | .undefined => "UNDEFINED".toList
  | .null => "None".toList
  | .bool b => if b then "True".toList else "False".toList
  | .number n => number n
  | .str s => Text.Literal.name s
  | .bytes octets => Text.Literal.bytes octets
  | .list items => '[' :: join (literals items) ++ [']']
  | .tuple [item] => '(' :: literal item ++ [',', ')']
  | .tuple items => '(' :: join (literals items) ++ [')']
  | .set [] => "set()".toList
  | .set items => '{' :: join (literals items) ++ ['}']
  | .map entries => '{' :: join (literalEntries entries) ++ ['}']

def literals : List Value → List (List Char)
  | [] => []
  | item :: rest => literal item :: literals rest

def literalEntries : List (Value × Value) → List (List Char)
  | [] => []
  | (key, value) :: rest => (literal key ++ ':' :: ' ' :: literal value) :: literalEntries rest
end

/-- The written form of a value on its own: a string is written without quotes. -/
def plain : Value → List Char
  | .str s => s.toList
  | value => literal value

/-- The written form of a value as an integer, cut off toward zero. -/
def integer? : Value → Option (List Char)
  | .bool b => some (number (.int (if b then 1 else 0)))
  | .number (.int i) => some (number (.int i))
  | .number (.float (.finite negative rank)) =>
      some (number (.int (Int.tdiv (Binary64.signedUnits negative rank) Binary64.unitsOfOne)))
  | _ => none

/-- A text with arguments in its places, and the arguments that are left. -/
def fill : List Char → List Value → Except Failure (List Char × List Value)
  | [], args => .ok ([], args)
  | ['%'], _ => .error .place
  | '%' :: '%' :: rest, args => do
      let (s, left) ← fill rest args
      return ('%' :: s, left)
  | '%' :: 's' :: _, [] | '%' :: 'd' :: _, [] => .error .arguments
  | '%' :: 's' :: rest, arg :: args => do
      let (s, left) ← fill rest args
      return (plain arg ++ s, left)
  | '%' :: 'd' :: rest, arg :: args =>
      match integer? arg with
      | some digits => do
          let (s, left) ← fill rest args
          return (digits ++ s, left)
      | none => .error .arguments
  | '%' :: _ :: _, _ => .error .place
  | c :: rest, args => do
      let (s, left) ← fill rest args
      return (c :: s, left)

/-- Whether all arguments have to be used: a single mapping that is not empty need not. -/
def mustUseAll : List Value → Bool
  | [.map (_ :: _)] => false
  | _ => true

/-- A text with arguments in its places. Without arguments it stays as it is. -/
def format (text : String) (args : List Value) : Except Failure String :=
  if args.isEmpty then .ok text
  else do
    let (s, left) ← fill text.toList args
    if mustUseAll args && !left.isEmpty then .error .arguments
    else return String.ofList s

end Message

end LiveValue.Log
