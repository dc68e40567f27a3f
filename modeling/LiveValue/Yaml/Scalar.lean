import LiveValue.Number.Numeral
import LiveValue.Text.Pieces
import LiveValue.Value.Basic

/-!
# Plain scalars

What a plain scalar of a YAML text stands for: nothing, a truth value, an integer in one of five
notations, a binary64 number, or else the text itself.
-/

namespace LiveValue.Yaml

/-- Why a text cannot be read. -/
inductive Failure where
  | malformed
  /-- An integer has no digits, or more than may be converted. -/
  | unconvertible
deriving DecidableEq

namespace Scalar

/-- A word in small letters, with a capital, and in capitals. -/
def spellings (word : String) : List String :=
  [word, word.capitalize, word.toUpper]

def trueWords : List String := ["yes", "true", "on"].flatMap spellings

def falseWords : List String := ["no", "false", "off"].flatMap spellings

/-- The words for nothing, which is one of them. -/
def nullWords : List String := ["", "~"] ++ spellings "null"

/-- Whether a text is a nonempty run of digits of a radix and underscores. -/
def isGrouped (radix : Nat) (s : List Char) : Bool :=
  !s.isEmpty && s.all fun c => c == '_' || Text.isDigitOf radix c

def ungrouped (s : List Char) : List Char := s.filter (· ≠ '_')

/-- A place of base sixty after the first: one or two digits below sixty. -/
def isSixtieth : List Char → Bool
  | [a] => a.isDigit
  | [a, b] => '0' ≤ a && a ≤ '5' && b.isDigit
  | _ => false

/-- The number that grouped digits of a radix denote, if there are any digits among them. -/
def grouped (radix : Nat) (s : List Char) : Except Failure Nat :=
  let digits := ungrouped s
  if digits.isEmpty then .error .unconvertible else .ok (Text.ofDigits radix digits)

def ofSixtieths (places : List (List Char)) : Nat :=
  places.foldl (fun n place => 60 * n + Decimal.ofDigits (ungrouped place)) 0

/-- The magnitude of an integer without its sign: binary, hexadecimal, base sixty, octal after a
leading zero, or decimal. Only decimal digits are limited in number. -/
def magnitude? (s : List Char) : Option (Except Failure Nat) :=
  let places := Text.Pieces.split (· == ':') s
  match s with
  | '0' :: 'b' :: digits => if isGrouped 2 digits then some (grouped 2 digits) else none
  | '0' :: 'x' :: digits => if isGrouped 16 digits then some (grouped 16 digits) else none
  | ['0'] => some (.ok 0)
  | '0' :: digits =>
      if isGrouped 8 digits then some (.ok (Text.ofDigits 8 (ungrouped digits))) else none
  | c :: _ =>
      if !c.isDigit || !isGrouped 10 places.first || !places.more.all isSixtieth then none
      else if places.more.isEmpty then
        if Number.maxDigits < (ungrouped s).length then some (.error .unconvertible)
        else some (.ok (Decimal.ofDigits (ungrouped s)))
      else some (.ok (ofSixtieths places.toList))
  | [] => none

def integer? (s : List Char) : Option (Except Failure Int) :=
  let (negative, rest) := Numeral.sign s
  (magnitude? rest).map fun n => n.map fun n => if negative then -(n : Int) else n

/-- Whether an exponent, if there is one, has the sign that it needs, and no underscores. -/
def hasSignedExponent (s : List Char) : Bool :=
  match s.dropWhile fun c => c ≠ 'e' && c ≠ 'E' with
  | [] => true
  | _ :: c :: digits => (c == '+' || c == '-') && !digits.contains '_'
  | _ => false

/-- Whether a point stands where it may: behind a digit, or in front of one at the very start. -/
def hasPlacedPoint (s : List Char) : Bool :=
  s.contains '.' && match s, (Numeral.sign s).2 with
    | '.' :: c :: _, _ => c.isDigit
    | _, c :: _ => c.isDigit
    | _, [] => false

/-- The number of a decimal numeral with a point, whose digits underscores may group. -/
def decimal? (s : List Char) : Option Binary64 :=
  if hasPlacedPoint s && hasSignedExponent s then
    (Numeral.read? (ungrouped s)).map Numeral.nearest
  else none

def special? (s : List Char) : Option Binary64 :=
  let (negative, unsigned) := Numeral.sign s
  if String.ofList unsigned ∈ [".inf", ".Inf", ".INF"] then some (.infinite negative)
  else if String.ofList s ∈ [".nan", ".NaN", ".NAN"] then some .nan
  else none

/-- The texts that no value has: they stand for an entry without a name, and for entries that come
from elsewhere. -/
def reservedWords : List String := ["=", "<<"]

/-- What a plain scalar stands for. -/
def resolve (text : List Char) : Except Failure Value :=
  let word := String.ofList text
  if word ∈ reservedWords then .error .malformed
  else if word ∈ nullWords then .ok .null
  else if word ∈ trueWords then .ok (.bool true)
  else if word ∈ falseWords then .ok (.bool false)
  else
    match integer? text with
    | some n => n.map Value.int
    | none =>
        match (special? text).orElse fun _ => decimal? text with
        | some x => .ok (.float x)
        | none => .ok (.str word)

/-- What a plain scalar stands for as a key. -/
def resolveKey (text : List Char) : Except Failure Value :=
  if text = ['='] then .ok (.str "=") else resolve text

end Scalar

end LiveValue.Yaml
