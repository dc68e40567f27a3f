import LiveValue.Number.Basic
import LiveValue.Text.Blank
import LiveValue.Text.Hex

/-!
# Numerals

The texts that denote a number: decimal numerals with an optional point and exponent, numerals in
radix 16, 8 and 2, and infinity. A decimal numeral without point and exponent is an integer, as is
one of another radix; all others are rounded to binary64.
-/

namespace LiveValue

/-- A decimal numeral, taken apart. -/
structure Numeral where
  negative : Bool
  whole : List Char
  /-- The digits after the point, if there is a point. -/
  fraction : Option (List Char)
  /-- The sign and the digits of the exponent, if there is one. -/
  exponent : Option (Bool × List Char)
deriving DecidableEq

namespace Numeral

def sign : List Char → Bool × List Char
  | '-' :: rest => (true, rest)
  | '+' :: rest => (false, rest)
  | s => (false, s)

/-- The longest run of decimal digits and the rest. -/
def digitRun (s : List Char) : List Char × List Char := s.span Char.isDigit

/-- The exponent that makes up all of a text, or nothing for an empty one. -/
def readExponent? : List Char → Option (Option (Bool × List Char))
  | [] => some none
  | e :: rest =>
      if e = 'e' ∨ e = 'E' then
        let (negative, digits) := sign rest
        if !digits.isEmpty && digits.all Char.isDigit then some (some (negative, digits)) else none
      else none

def read? (s : List Char) : Option Numeral := do
  let (negative, s) := sign s
  let (whole, s) := digitRun s
  let (fraction, s) := match s with
    | '.' :: s => let (digits, s) := digitRun s; (some digits, s)
    | s => (none, s)
  guard !(whole.isEmpty && (fraction.getD []).isEmpty)
  let exponent ← readExponent? s
  return { negative, whole, fraction, exponent }

def power (n : Numeral) : Int :=
  match n.exponent with
  | none => 0
  | some (negative, digits) =>
      if negative then -(Decimal.ofDigits digits : Int) else Decimal.ofDigits digits

def nearest (n : Numeral) : Binary64 :=
  let fraction := n.fraction.getD []
  Binary64.ofDecimal n.negative (Decimal.ofDigits (n.whole ++ fraction)) (n.power - fraction.length)

/-- The number that a decimal numeral denotes. Only integers have a limit on their digits. -/
def value (n : Numeral) : Except Fault Number :=
  if n.fraction.isNone && n.exponent.isNone then
    if Number.maxDigits < n.whole.length then .error .digitLimit
    else
      let magnitude : Int := Decimal.ofDigits n.whole
      .ok (.int (if n.negative then -magnitude else magnitude))
  else .ok (.float n.nearest)

/-- The radix that a letter after a leading zero announces. -/
def radix? (c : Char) : Option Nat :=
  if c = 'x' ∨ c = 'X' then some 16
  else if c = 'o' ∨ c = 'O' then some 8
  else if c = 'b' ∨ c = 'B' then some 2
  else none

/-- The integer of an unsigned numeral in radix 16, 8 or 2. -/
def readRadix? : List Char → Option Int
  | '0' :: letter :: digits => do
      let radix ← radix? letter
      guard (!digits.isEmpty && digits.all (Text.isDigitOf radix))
      return Text.ofDigits radix digits
  | _ => none

def readInfinity? (s : List Char) : Option Binary64 :=
  let (negative, rest) := sign s
  if rest = "Infinity".toList then some (.infinite negative) else none

end Numeral

/-- The number that a text denotes, blanks around it aside; a text that denotes none is no error. -/
def Number.parse (text : List Char) : Except Fault (Option Number) :=
  let s := Text.trim text
  match Numeral.read? s with
  | some n => n.value.map some
  | none =>
      match Numeral.readRadix? s with
      | some i => .ok (some (.int i))
      | none => .ok ((Numeral.readInfinity? s).map .float)

/-- The binary64 number that the exact layout writes as a text. -/
def Binary64.readExact? (text : List Char) : Option Binary64 :=
  let (negative, rest) := Numeral.sign text
  if rest = Layout.exact.infinity.toList then some (.infinite negative)
  else if text = Layout.exact.nan.toList then some .nan
  else (Numeral.read? text).map Numeral.nearest

end LiveValue
