import LiveValue.Number.Numeral

/-!
# Integers written by people

A settings file or a variable may hold an integer as a text, with more freedom than a numeral has:
blanks around it, a sign, zeros in front, underscores between digits, and a fraction of nothing but
zeros. Every such text comes down to a plain integer, which has only a minus sign and digits.

* `IntegerText.withoutZeros?`, `IntegerText.withoutFraction`, `IntegerText.ungrouped?`: what is
  taken away on the way;
* `IntegerText.plain?`: the plain integer that is left, whose length is limited;
* `IntegerText.read`: the integer of a text.
-/

namespace LiveValue.IntegerText

/-- Why a text gives no integer. -/
inductive Failure where
  | unreadable
  /-- The text starts with more digits than may be converted. -/
  | oversized
deriving DecidableEq

/-- The most characters of a plain integer. -/
def maxWidth : Nat := Number.maxDigits

def minus : List Char → Bool × List Char
  | '-' :: rest => (true, rest)
  | s => (false, s)

/-- The integer that is written with a minus sign and digits alone, none of them a leading zero. -/
def plain? (s : List Char) : Option Int :=
  let (negative, digits) := minus s
  let isPlain := !digits.isEmpty && digits.all Char.isDigit &&
    (digits.head? != some '0' || digits.length == 1)
  if isPlain && s.length ≤ maxWidth then
    let magnitude : Int := Decimal.ofDigits digits
    some (if negative then -magnitude else magnitude)
  else none

/-- How many characters at the very start of a text belong to a plain integer other than zero. -/
def plainWidth (s : List Char) : Nat :=
  let (negative, rest) := minus s
  let digits := rest.takeWhile Char.isDigit
  if digits.isEmpty || digits.head? == some '0' then 0
  else (if negative then 1 else 0) + digits.length

/-- A text behind a zero, without further zeros. Underscores among the zeros go as well, and the
last zero stays where nothing but a point or the end follows. A sign may stand behind the zeros. -/
def dropZeros? (afterUnderscore : Bool) : List Char → Option (List Char)
  | [] => if afterUnderscore then none else some ['0']
  | '0' :: rest => dropZeros? false rest
  | '_' :: rest => dropZeros? true rest
  | '.' :: rest => if afterUnderscore then none else some ('0' :: '.' :: rest)
  | c :: rest => if c.isDigit || c == '-' then some (c :: rest) else none

/-- A text that starts with a digit, without zeros in front. -/
def withoutZeros? : List Char → Option (List Char)
  | '0' :: rest => dropZeros? false rest
  | c :: rest => if c.isDigit then some (c :: rest) else none
  | [] => none

/-- A text without a point that only zeros follow, of which there is at least one. -/
def withoutFraction (s : List Char) : List Char :=
  match s.dropWhile (· ≠ '.') with
  | '.' :: '0' :: zeros => if zeros.all (· == '0') then s.takeWhile (· ≠ '.') else s
  | _ => s

/-- A text without its underscores, none of which may stand first, last or behind another; `blocked`
tells that none may stand here. -/
def ungrouped? (blocked : Bool) : List Char → Option (List Char)
  | [] => if blocked then none else some []
  | c :: rest =>
      if c = '_' then if blocked then none else ungrouped? true rest
      else (ungrouped? false rest).map (c :: ·)

/-- The integer that a text comes down to. -/
def reduced? (text : List Char) : Option Int := do
  let (negative, s) := Numeral.sign (Text.stripBoth Text.isSpace text)
  let digits ← ungrouped? true (withoutFraction (← withoutZeros? s))
  plain? (if negative then '-' :: digits else digits)

/-- The integer of a text. A text that starts with too long a plain integer is refused for its
length, whatever follows. -/
def read (text : List Char) : Except Failure Int :=
  if maxWidth < plainWidth text then .error .oversized
  else match reduced? text with
    | some i => .ok i
    | none => .error .unreadable

end LiveValue.IntegerText
