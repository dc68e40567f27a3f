import LiveValue.Text.Hex

/-!
# Places in a text

A cursor stands in a line of a text and knows the lines below it. Between two tokens there may be a
gap of spaces, comments and line ends, which `Cursor.gap` skips.
-/

namespace LiveValue.Yaml

def skipSpaces (s : List Char) : List Char := s.dropWhile (· == ' ')

def dropTrailing (s : List Char) : List Char := (skipSpaces s.reverse).reverse

/-- Whether nothing but a comment follows. -/
def isOver (s : List Char) : Bool :=
  match skipSpaces s with
  | [] => true
  | c :: _ => c == '#'

/-- Whether a text starts with a blank or is at its end. -/
def startsBlank : List Char → Bool
  | [] => true
  | c :: _ => c == ' ' || c == '\t'

/-- A place: how wide its line is, what is left of the line, and the lines below. -/
structure Cursor where
  width : Nat
  line : List Char
  below : List (List Char)

namespace Cursor

/-- How many characters stand before a cursor in its line. -/
def column (c : Cursor) : Nat := c.width - c.line.length

def isEnd (c : Cursor) : Bool := c.line.isEmpty && c.below.isEmpty

/-- The first token in or below some lines, or the end of the text. -/
def ofLines : List (List Char) → Cursor
  | [] => ⟨0, [], []⟩
  | line :: below =>
      if isOver line then ofLines below else ⟨line.length, skipSpaces line, below⟩

/-- The next token, and whether it stands in another line; the end of the text counts as one. -/
def gap (c : Cursor) : Bool × Cursor :=
  if isOver c.line then (true, ofLines c.below)
  else (false, { c with line := skipSpaces c.line })

/-- How far apart the start of a key and its colon may be. -/
def longestKey : Nat := 1024

/-- Whether a colon may follow a key: it stands in the same line, and not too far away. -/
def reaches (start colon : Cursor) : Bool :=
  start.below.length == colon.below.length &&
    start.line.length - colon.line.length ≤ longestKey

/-- A bound for the steps of reading what is left of a text. -/
def fuel (c : Cursor) : Nat :=
  4 * (c.below.foldl (fun n line => n + line.length + 1) c.line.length) + 8

end Cursor

/-- What lines that are folded into one have between them: the ends of the blank lines among them,
or else a space. -/
def fold (blankLines : Nat) : List Char :=
  if blankLines = 0 then [' '] else List.replicate blankLines '\n'

end LiveValue.Yaml
