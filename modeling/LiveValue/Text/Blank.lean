/-!
# Blanks

The characters that count as white space around a text, and their removal at both ends.
-/

namespace LiveValue.Text

def blankRanges : List (Nat × Nat) :=
  [(0x0009, 0x000D), (0x001C, 0x0020), (0x0085, 0x0085), (0x00A0, 0x00A0), (0x1680, 0x1680),
   (0x2000, 0x200A), (0x2028, 0x2029), (0x202F, 0x202F), (0x205F, 0x205F), (0x3000, 0x3000)]

def isBlank (c : Char) : Bool :=
  blankRanges.any fun (first, last) => first ≤ c.toNat && c.toNat ≤ last

/-- A blank character other than the four information separators of ASCII. -/
def isSpace (c : Char) : Bool := isBlank c && !(0x001C ≤ c.toNat && c.toNat ≤ 0x001F)

/-- A text without the characters of a kind at both ends. -/
def stripBoth (kind : Char → Bool) (s : List Char) : List Char :=
  ((s.dropWhile kind).reverse.dropWhile kind).reverse

def trim (s : List Char) : List Char := stripBoth isBlank s

end LiveValue.Text
