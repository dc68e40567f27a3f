/-!
# Hexadecimal digits

Lower-case hexadecimal numerals of a fixed width, and the value of a digit in either case.
-/

namespace LiveValue.Text

/-- A number in lower-case hexadecimal with at least `width` digits. -/
def hex (width n : Nat) : List Char :=
  let digits := Nat.toDigits 16 n
  List.replicate (width - digits.length) '0' ++ digits

/-- The value of a digit in a radix of at most sixteen. -/
def digitValue? (radix : Nat) (c : Char) : Option Nat :=
  let value :=
    if '0' ≤ c ∧ c ≤ '9' then some (c.toNat - '0'.toNat)
    else if 'a' ≤ c ∧ c ≤ 'f' then some (c.toNat - 'a'.toNat + 10)
    else if 'A' ≤ c ∧ c ≤ 'F' then some (c.toNat - 'A'.toNat + 10)
    else none
  value.filter (· < radix)

def isDigitOf (radix : Nat) (c : Char) : Bool := (digitValue? radix c).isSome

/-- The number that digits of a radix denote, read left to right. -/
def ofDigits (radix : Nat) (ds : List Char) : Nat :=
  ds.foldl (fun n d => radix * n + (digitValue? radix d).getD 0) 0

end LiveValue.Text
