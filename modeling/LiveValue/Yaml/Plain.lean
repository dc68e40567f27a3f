import LiveValue.Yaml.Cursor

/-!
# Plain scalars over lines

A plain scalar has no quotes. It ends in front of a comment, in front of a colon that a blank
follows, and within brackets or braces in front of their marks as well. Otherwise it goes on in the
lines below, folded into one, as far as these are indented enough.
-/

namespace LiveValue.Yaml.Plain

/-- The characters that end a plain scalar within brackets or braces. -/
def flowMarks : List Char := [',', '?', '[', ']', '{', '}']

/-- The characters that no plain scalar starts with. -/
def reservedStarts : List Char :=
  ['-', '?', ':', ',', '[', ']', '{', '}', '#', '&', '*', '!', '|', '>', '\'', '"', '%', '@',
    '\x60', ' ', '\t']

/-- Whether a plain scalar can start here; some marks may start one if no blank follows. -/
def startsPlain (flow : Bool) : List Char → Bool
  | [] => false
  | c :: rest =>
      !reservedStarts.contains c ||
        (!startsBlank rest && (c == '-' || (!flow && (c == '?' || c == ':'))))

/-- Whether a colon with this behind it ends a plain scalar. -/
def endsAtColon (flow : Bool) (rest : List Char) : Bool :=
  startsBlank rest ||
    (flow && match rest with
      | c :: _ => c != '?' && flowMarks.contains c
      | [] => false)

/-- The characters of a plain scalar in a line and what follows; `blank` tells whether a space comes
before, behind which a comment can start. -/
def scan (flow : Bool) : Bool → List Char → List Char × List Char
  | _, [] => ([], [])
  | blank, c :: rest =>
      if c == '\t' || (c == '#' && blank) || (c == ':' && endsAtColon flow rest) ||
          (flow && flowMarks.contains c) then
        ([], c :: rest)
      else
        let (s, after) := scan flow (c == ' ') rest
        (c :: s, after)

/-- Nothing of a line is lost. -/
theorem scan_append (flow blank : Bool) (s : List Char) :
    (scan flow blank s).1 ++ (scan flow blank s).2 = s := by
  induction s generalizing blank with
  | nil => rfl
  | cons c rest ih =>
      rw [scan]
      split
      · rfl
      · simp [ih]

/-- A plain scalar within the line of a cursor, and what follows it. -/
def readLine? (flow : Bool) (c : Cursor) : Option (List Char × Cursor) :=
  if startsPlain flow c.line then
    let (s, after) := scan flow false c.line
    some (dropTrailing s, { c with line := after })
  else none

/-- Goes on with a text that ends where `stop` is, after a number of blank lines. Outside brackets a
line with less than the least indentation does not belong to it, a comment never does. -/
def readBelow (flow : Bool) (least : Nat) (text : List Char) (stop : Cursor) (blankLines : Nat) :
    List (List Char) → List Char × Cursor
  | [] => (text, stop)
  | line :: below =>
      let s := skipSpaces line
      if s.isEmpty then readBelow flow least text stop (blankLines + 1) below
      else if !flow && line.length - s.length < least then (text, stop)
      else
        let (more, after) := scan flow true s
        if more.isEmpty then (text, stop)
        else
          let text := text ++ fold blankLines ++ dropTrailing more
          let stop : Cursor := ⟨line.length, after, below⟩
          if after.isEmpty then readBelow flow least text stop 0 below else (text, stop)

def read? (flow : Bool) (least : Nat) (c : Cursor) : Option (List Char × Cursor) := do
  let (text, stop) ← readLine? flow c
  if stop.line.isEmpty then return readBelow flow least text stop 0 stop.below
  else return (text, stop)

end LiveValue.Yaml.Plain
