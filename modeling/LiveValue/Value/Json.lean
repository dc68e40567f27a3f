import LiveValue.Number.Numeral
import LiveValue.Value.Basic

/-!
# Reading JSON

`Value.ofJson?` reads a value from a JSON text. Besides JSON it takes the three words for numbers
that are not finite. Of two members with one name the later wins; a text that goes on behind its
value is no JSON text.
-/

namespace LiveValue.Value.Json

def isSpace (c : Char) : Bool := c == ' ' || c == '\t' || c == '\n' || c == '\r'

def skipSpace (s : List Char) : List Char := s.dropWhile isSpace

/-! ## Strings -/

def shortEscape? : Char → Option Char
  | '"' => some '"'
  | '\\' => some '\\'
  | '/' => some '/'
  | 'b' => some '\x08'
  | 'f' => some '\x0c'
  | 'n' => some '\n'
  | 'r' => some '\r'
  | 't' => some '\t'
  | _ => none

def hexUnit? (a b c d : Char) : Option Nat :=
  if [a, b, c, d].all (Text.isDigitOf 16) then some (Text.ofDigits 16 [a, b, c, d]) else none

/-- The character of two units that belong together. -/
def surrogatePair? (high low : Nat) : Option Char :=
  if 0xD800 ≤ high ∧ high < 0xDC00 ∧ 0xDC00 ≤ low ∧ low < 0xE000 then
    some (Char.ofNat (0x10000 + (high - 0xD800) * 0x400 + (low - 0xDC00)))
  else none

/-- The content of a string up to its closing quote, and what follows. -/
def readString? : List Char → Option (List Char × List Char)
  | [] => none
  | '"' :: rest => some ([], rest)
  | '\\' :: 'u' :: a :: b :: c :: d :: rest => do
      let unit ← hexUnit? a b c d
      let single := do
        let (s, rest) ← readString? rest
        return (Char.ofNat unit :: s, rest)
      match rest with
      | '\\' :: 'u' :: a :: b :: c :: d :: more =>
          match (hexUnit? a b c d).bind (surrogatePair? unit) with
          | some char => do
              let (s, rest) ← readString? more
              return (char :: s, rest)
          | none => single
      | _ => single
  | '\\' :: c :: rest => do
      let char ← shortEscape? c
      let (s, rest) ← readString? rest
      return (char :: s, rest)
  | c :: rest => do
      guard (0x20 ≤ c.toNat)
      let (s, rest) ← readString? rest
      return (c :: s, rest)

/-! ## Numbers -/

def isNumberChar (c : Char) : Bool :=
  c.isDigit || c == '+' || c == '-' || c == '.' || c == 'e' || c == 'E'

/-- Whether a numeral keeps to the stricter form of JSON: digits on both sides of a point, and no
leading zeros. -/
def isStrict (n : Numeral) : Bool :=
  !n.whole.isEmpty && (n.whole.length == 1 || n.whole.head? != some '0') &&
    n.fraction != some []

def number? (s : List Char) : Option Number := do
  guard (s.head? ≠ some '+')
  let n ← Numeral.read? s
  guard (isStrict n)
  n.value.toOption

/-! ## Values -/

def words : List (String × Value) :=
  [("null", .null), ("true", .bool true), ("false", .bool false), ("NaN", .float .nan),
    ("Infinity", .float (.infinite false)), ("-Infinity", .float (.infinite true))]

/-- The word at the start of a text, and what follows. -/
def word? (s : List Char) : Option (Value × List Char) :=
  words.findSome? fun (word, value) =>
    if word.toList.isPrefixOf s then some (value, s.drop word.length) else none

mutual
/-- The value at the start of a text, and what follows. -/
def readValue? : Nat → List Char → Option (Value × List Char)
  | 0, _ => none
  | fuel + 1, s =>
      match skipSpace s with
      | '"' :: rest => do
          let (content, rest) ← readString? rest
          return (.str (String.ofList content), rest)
      | '[' :: rest =>
          match skipSpace rest with
          | ']' :: rest => some (.list [], rest)
          | rest => do
              let (items, rest) ← readItems? fuel rest
              return (.list items, rest)
      | '{' :: rest =>
          match skipSpace rest with
          | '}' :: rest => some (.map [], rest)
          | rest => do
              let (members, rest) ← readMembers? fuel rest
              return (ofEntries members, rest)
      | s =>
          match word? s with
          | some found => some found
          | none => do
              let (text, rest) := s.span isNumberChar
              return (.number (← number? text), rest)

/-- The items of an array up to its closing bracket, and what follows. -/
def readItems? : Nat → List Char → Option (List Value × List Char)
  | 0, _ => none
  | fuel + 1, s => do
      let (item, rest) ← readValue? fuel s
      match skipSpace rest with
      | ',' :: rest =>
          let (items, rest) ← readItems? fuel rest
          return (item :: items, rest)
      | ']' :: rest => return ([item], rest)
      | _ => none

/-- The members of an object up to its closing brace, and what follows. -/
def readMembers? : Nat → List Char → Option (List (Value × Value) × List Char)
  | 0, _ => none
  | fuel + 1, s =>
      match skipSpace s with
      | '"' :: rest => do
          let (name, rest) ← readString? rest
          match skipSpace rest with
          | ':' :: rest =>
              let (value, rest) ← readValue? fuel rest
              let member := (Value.str (String.ofList name), value)
              match skipSpace rest with
              | ',' :: rest =>
                  let (members, rest) ← readMembers? fuel rest
                  return (member :: members, rest)
              | '}' :: rest => return ([member], rest)
              | _ => none
          | _ => none
      | _ => none
end

end Json

/-- The value of a JSON text. -/
def ofJson? (text : String) : Option Value := do
  let s := text.toList
  let (value, rest) ← Json.readValue? (2 * s.length + 2) s
  guard (Json.skipSpace rest).isEmpty
  return value

end LiveValue.Value
