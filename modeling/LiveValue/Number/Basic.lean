import LiveValue.Fault
import LiveValue.Number.Layout

/-!
# Numbers

A number is an integer of any size or a binary64 number. Both mix in sums: an integer that meets
a binary64 number is rounded first.
-/

namespace LiveValue

/-- An integer or a binary64 number. -/
inductive Number where
  | int (i : Int)
  | float (x : Binary64)
deriving DecidableEq

namespace Number

/-- The most decimal digits that are converted between a text and an integer. -/
def maxDigits : Nat := 4300

/-- An integer in decimal, unless it has too many digits. -/
def writeInt (i : Int) : Except Fault (List Char) :=
  if Nat.pow 10 maxDigits ≤ i.natAbs then .error .digitLimit
  else .ok ((if i < 0 then ['-'] else []) ++ Decimal.digits i.natAbs)

def write (layout : Layout) : Number → Except Fault (List Char)
  | .int i => writeInt i
  | .float x => .ok (layout.write x)

/-- The number as a binary64 number; an integer may be too large for one. -/
def toFloat : Number → Except Fault Binary64
  | .int i => match Binary64.ofInt? i with
    | some x => .ok x
    | none => .error .outOfRange
  | .float x => .ok x

/-- The sum; integers add exactly. -/
def add : Number → Number → Except Fault Number
  | .int i, .int j => .ok (.int (i + j))
  | a, b => do
      let x ← a.toFloat
      let y ← b.toFloat
      return .float (x.add y)

/-! ## Order -/

/-- The place of a number among all numbers of both kinds: how infinite it is, then its size in
units. The float that is no number has no place. -/
def place? : Number → Option (Int × Int)
  | .int i => some (0, i * Binary64.unitsOfOne)
  | .float (.finite negative rank) => some (0, Binary64.signedUnits negative rank)
  | .float (.infinite negative) => some (if negative then -1 else 1, 0)
  | .float .nan => none

def equals (a b : Number) : Bool :=
  match a.place?, b.place? with
  | some p, some q => p == q
  | _, _ => false

def before (a b : Number) : Bool :=
  match a.place?, b.place? with
  | some p, some q => p.1 < q.1 || (p.1 == q.1 && p.2 < q.2)
  | _, _ => false

def isZero (n : Number) : Bool := n.equals (.int 0)

end Number

end LiveValue
