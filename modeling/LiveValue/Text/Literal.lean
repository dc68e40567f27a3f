import LiveValue.Text.Hex
import LiveValue.Text.Printable

/-!
# Quoted literals of names and bytes

A literal stands between single quotes, or between double quotes if its content holds a single
quote and no double one. Backslashes, the enclosing quote, and whatever is not printable are
escaped.
-/

namespace LiveValue.Text.Literal

/-- The quote around a content. -/
def enclosing (content : List Char) : Char :=
  if '\'' ∈ content ∧ '"' ∉ content then '"' else '\''

/-- A character within the literal, where `plain` tells which characters stand for themselves. -/
def escape (plain : Char → Bool) (quote c : Char) : List Char :=
  if c = quote ∨ c = '\\' then ['\\', c]
  else match c with
    | '\t' => ['\\', 't']
    | '\n' => ['\\', 'n']
    | '\r' => ['\\', 'r']
    | c =>
        if plain c then [c]
        else if c.toNat < 0x100 then '\\' :: 'x' :: hex 2 c.toNat
        else if c.toNat < 0x10000 then '\\' :: 'u' :: hex 4 c.toNat
        else '\\' :: 'U' :: hex 8 c.toNat

/-- A content between its quotes. -/
def write (plain : Char → Bool) (content : List Char) : List Char :=
  let quote := enclosing content
  quote :: content.flatMap (escape plain quote) ++ [quote]

def name (s : String) : List Char := write isPrintable s.toList

/-- The literal of a byte string: a `b`, then the bytes as characters, of which those of visible
ASCII stand for themselves. -/
def bytes (bs : List UInt8) : List Char :=
  'b' :: write (fun c => 0x20 ≤ c.toNat && c.toNat < 0x7f) (bs.map fun b => Char.ofNat b.toNat)

end LiveValue.Text.Literal
