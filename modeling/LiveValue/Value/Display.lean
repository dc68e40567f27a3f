import LiveValue.Entries
import LiveValue.Text.Json
import LiveValue.Text.Literal
import LiveValue.Value.Basic

/-!
# The text of values

`Value.text` is what a value looks like when it is shown: nothing for nothing, strings as they are,
numbers in the display layout, and compact JSON for everything that has parts. Inside JSON an
undefined member disappears, an undefined or non-finite item is `null`, and a byte string is the
string of its literal.
-/

namespace LiveValue

/-- A number inside structured text. -/
def Number.json : Number → Except Fault (List Char)
  | .int i => writeInt i
  | .float (.finite negative rank) => .ok (Layout.nested.write (.finite negative rank))
  | .float _ => .ok "null".toList

namespace Value

def joinWithCommas (parts : List (List Char)) : List Char := [','].intercalate parts

def writeObject (members : List (List Char × List Char)) : List Char :=
  '{' :: joinWithCommas (members.map fun (name, text) => Text.Json.quoted name ++ ':' :: text)
    ++ ['}']

def boolText (b : Bool) : List Char := if b then "true".toList else "false".toList

/-- The shown form of a value without parts, if it is one. -/
def plainText? : Value → Option (Except Fault (List Char))
  | .undefined | .null => some (.ok [])
  | .bool b => some (.ok (boolText b))
  | .number n => some (n.write .display)
  | .str s => some (.ok s.toList)
  | _ => none

mutual
def written : Value → Except Fault (List Char)
  | .undefined | .null => .ok "null".toList
  | .bool b => .ok (boolText b)
  | .number n => n.json
  | .str s => .ok (Text.Json.quoted s.toList)
  | .bytes octets => .ok (Text.Json.quoted (Text.Literal.bytes octets))
  | .list items | .tuple items | .set items => do
      return '[' :: joinWithCommas (← writtenItems items) ++ [']']
  | .map entries => do return writeObject (← writtenMembers entries)

def writtenItems : List Value → Except Fault (List (List Char))
  | [] => .ok []
  | x :: xs => do
      let first ← written x
      return first :: (← writtenItems xs)

/-- The names of the members of a mapping, with the texts. -/
def writtenMembers : List (Value × Value) → Except Fault (List (List Char × List Char))
  | [] => .ok []
  | (.str name, value) :: rest => do
      let text ← written value
      return (name.toList, text) :: (← writtenMembers rest)
  | _ :: rest => writtenMembers rest
end

mutual
/-- A value with names for the keys of its mappings, and without undefined members. A name that
comes again keeps its place and takes the later value. -/
def withNames : Value → Except Fault Value
  | .list items => do return .list (← itemsWithNames items)
  | .tuple items => do return .tuple (← itemsWithNames items)
  | .set items => do return .set (← itemsWithNames items)
  | .map entries => do return .ofFields (Entries.writeAll (← membersWithNames entries) [])
  | value => .ok value

def itemsWithNames : List Value → Except Fault (List Value)
  | [] => .ok []
  | x :: xs => do
      let first ← withNames x
      return first :: (← itemsWithNames xs)

/-- The members of a mapping: a key that is no string takes its shown form as its name. -/
def membersWithNames : List (Value × Value) → Except Fault (List (String × Value))
  | [] => .ok []
  | (key, value) :: rest => do
      if value.isUndefined then membersWithNames rest
      else
        let name ← match key.plainText? with
          | some shown => shown
          | none => withNames key >>= written
        let member ← withNames value
        return (String.ofList name, member) :: (← membersWithNames rest)
end

/-- A value as compact JSON. -/
def json (value : Value) : Except Fault (List Char) := value.withNames >>= written

/-- The shown form of a value. -/
def text (value : Value) : Except Fault (List Char) :=
  match value.plainText? with
  | some shown => shown
  | none => value.json

end Value

end LiveValue
