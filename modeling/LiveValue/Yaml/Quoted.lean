import LiveValue.Yaml.Cursor

/-!
# Quoted scalars

A single-quoted scalar holds a quote by writing it twice, a double-quoted one has escapes. Both may
go on over lines, which are folded: blanks around a line end do not count, unless a backslash in
front of it keeps those before it and takes the line end itself away.
-/

namespace LiveValue.Yaml.Quoted

/-- How the part of a scalar in one line ends. -/
inductive Ending where
  /-- With the closing quote; this follows. -/
  | closed (rest : List Char)
  /-- With the line. -/
  | folded
  /-- With a backslash at the end of the line. -/
  | joined

/-- The part of a scalar in one line. -/
structure Part where
  content : List Char
  ending : Ending

namespace Part

def push (c : Char) (p : Part) : Part := { p with content := c :: p.content }

/-- A part with a character of the text in front; blanks before a line end do not count. -/
def pushPlain (c : Char) (p : Part) : Part :=
  match p.ending with
  | .folded => if startsBlank [c] && p.content.isEmpty then p else p.push c
  | _ => p.push c

end Part

/-! ## One line -/

def readSingle : List Char → Part
  | [] => ⟨[], .folded⟩
  | '\'' :: '\'' :: rest => (readSingle rest).push '\''
  | '\'' :: rest => ⟨[], .closed rest⟩
  | c :: rest => (readSingle rest).pushPlain c

def shortEscapes : List (Char × Char) :=
  [('0', '\x00'), ('a', '\x07'), ('b', '\x08'), ('t', '\t'), ('\t', '\t'), ('n', '\n'),
    ('v', '\x0b'), ('f', '\x0c'), ('r', '\r'), ('e', '\x1b'), (' ', ' '), ('"', '"'), ('/', '/'),
    ('\\', '\\'), ('N', '\u0085'), ('_', '\u00a0'), ('L', '\u2028'), ('P', '\u2029')]

/-- How many hexadecimal digits follow the letter of an escape. -/
def hexWidth? : Char → Option Nat
  | 'x' => some 2
  | 'u' => some 4
  | 'U' => some 8
  | _ => none

/-- A double-quoted part; `pending` characters belong to an escape that has been read already. -/
def readDouble? : Nat → List Char → Option Part
  | 0, [] => some ⟨[], .folded⟩
  | _ + 1, [] => none
  | pending + 1, _ :: rest => readDouble? pending rest
  | 0, '"' :: rest => some ⟨[], .closed rest⟩
  | 0, ['\\'] => some ⟨[], .joined⟩
  | 0, '\\' :: c :: rest =>
      match hexWidth? c with
      | some width => do
          let digits := rest.take width
          guard (digits.length == width && digits.all (Text.isDigitOf 16))
          return (← readDouble? width rest).push (Char.ofNat (Text.ofDigits 16 digits))
      | none => do
          let char ← shortEscapes.lookup c
          return (← readDouble? 0 rest).push char
  | 0, c :: rest => do return (← readDouble? 0 rest).pushPlain c

/-! ## Over lines -/

/-- A quoted scalar that goes on in the lines below, after a number of blank lines. What comes
between is folded, unless the lines are `joined`. -/
def readBelow? (readPart : List Char → Option Part) (joined : Bool) (blankLines : Nat) :
    List (List Char) → Option (List Char × Cursor)
  | [] => none
  | line :: below =>
      let s := line.dropWhile fun c => c == ' ' || c == '\t'
      if s.isEmpty then readBelow? readPart joined (blankLines + 1) below
      else do
        let part ← readPart s
        let between := if joined && blankLines == 0 then [] else fold blankLines
        let text := between ++ part.content
        match part.ending with
        | .closed rest => some (text, ⟨line.length, rest, below⟩)
        | .folded =>
            (readBelow? readPart false 0 below).map fun (more, after) => (text ++ more, after)
        | .joined =>
            (readBelow? readPart true 0 below).map fun (more, after) => (text ++ more, after)

def readContent? (readPart : List Char → Option Part) (c : Cursor) :
    Option (List Char × Cursor) := do
  let part ← readPart c.line
  match part.ending with
  | .closed rest => some (part.content, { c with line := rest })
  | .folded =>
      (readBelow? readPart false 0 c.below).map fun (more, after) => (part.content ++ more, after)
  | .joined =>
      (readBelow? readPart true 0 c.below).map fun (more, after) => (part.content ++ more, after)

def read? (c : Cursor) : Option (List Char × Cursor) :=
  match c.line with
  | '\'' :: rest => readContent? (fun s => some (readSingle s)) { c with line := rest }
  | '"' :: rest => readContent? (readDouble? 0) { c with line := rest }
  | _ => none

end LiveValue.Yaml.Quoted
