/-!
# Quoted runs

A quoted run starts at a single or double quote and ends at the next quote of the same kind; a
backslash inside a run takes the following character along. `QuoteState.next` is the state
machine that every scanner of this library shares, `unquote` takes the quotes and backslashes of
one quoted text away again.
-/

namespace LiveValue.Text

/-- The two quote characters. -/
inductive Quote where
  | single
  | double
deriving DecidableEq

def Quote.char : Quote → Char
  | .single => '\''
  | .double => '"'

def Quote.ofChar? (c : Char) : Option Quote :=
  if c = '\'' then some .single else if c = '"' then some .double else none

/-- Whether a scanner stands in open text or within a quoted run. -/
inductive QuoteState where
  | scanning
  | inside (quote : Quote)
deriving DecidableEq

namespace QuoteState

def next : QuoteState → Char → QuoteState
  | .scanning, c => match Quote.ofChar? c with
    | some q => .inside q
    | none => .scanning
  | .inside q, c => if c = q.char then .scanning else .inside q

/-- The state after a piece of text that is looked at as one: only a piece of a single character
can be a quote. -/
def nextPiece (state : QuoteState) : List Char → QuoteState
  | [c] => state.next c
  | _ => state

end QuoteState

/-- Replaces each backslash in front of `c` and that `c` by `c` alone, from left to right. -/
def unescape (c : Char) : List Char → List Char
  | '\\' :: d :: rest => if d = c then c :: unescape c rest else '\\' :: unescape c (d :: rest)
  | d :: rest => d :: unescape c rest
  | [] => []

/-- The text within the first and the last character: escapes of the first character are undone,
then escapes of the backslash. An empty text has no first character. -/
def unquote? : List Char → Option (List Char)
  | [] => none
  | quote :: rest => some (unescape '\\' (unescape quote rest.dropLast))

end LiveValue.Text
