/-!
# Binary64 numbers

A finite number is a sign and a *rank*. Ranks count the magnitudes that have 53 significant bits
upwards from zero, so neighbouring magnitudes have neighbouring ranks, and the rank just past the
last one stands for the overflow to infinity. All arithmetic is exact arithmetic on naturals in
*units* of 2^-1074, the smallest positive magnitude, followed by one rounding.

* `Binary64.units`: the magnitude of a rank, in units;
* `Binary64.nearestRank`: the rank nearest to a fraction of units, a tie going to the even
  significand;
* `Binary64.ofInt?`, `Binary64.add`: exact results, rounded once.
-/

namespace LiveValue

/-- The first rank that is too large for a finite number. -/
def Binary64.rankBound : Nat := 2047 * Nat.pow 2 52

/-- A binary64 number: a signed finite magnitude, a signed infinity, or no number at all. -/
inductive Binary64 where
  | finite (negative : Bool) (rank : Fin Binary64.rankBound)
  | infinite (negative : Bool)
  | nan
deriving DecidableEq

namespace Binary64

/-! ## Ranks and magnitudes -/

/-- The power of two, in units, that one step of a rank's significand is worth. -/
def scale (rank : Nat) : Nat := rank / Nat.pow 2 52 - 1

/-- The at most 53 significant bits of a rank. -/
def significand (rank : Nat) : Nat := rank - scale rank * Nat.pow 2 52

/-- The magnitude of a rank, in units of 2^-1074. -/
def units (rank : Nat) : Nat := significand rank * Nat.pow 2 (scale rank)

/-- How many units make one. -/
def unitsOfOne : Nat := Nat.pow 2 1074

/-- The natural number nearest to a fraction; of two equally near ones, the even one. -/
def roundQuotient (numerator denominator : Nat) : Nat :=
  let whole := numerator / denominator
  let excess := 2 * (numerator % denominator)
  if denominator < excess ∨ (excess = denominator ∧ whole % 2 = 1) then whole + 1 else whole

/-- The rank whose magnitude is nearest to a fraction of units. A significand that rounds up to
2^53 carries into the next scale, since the ranks run on. -/
def nearestRank (numerator denominator : Nat) : Nat :=
  let shift := Nat.log2 (numerator / denominator) - 52
  shift * Nat.pow 2 52 + roundQuotient numerator (denominator * Nat.pow 2 shift)

/-- The number of a sign and a rank; ranks that are too large are infinite. -/
def ofRank (negative : Bool) (rank : Nat) : Binary64 :=
  if h : rank < rankBound then .finite negative ⟨rank, h⟩ else .infinite negative

def zero (negative : Bool) : Binary64 := ofRank negative 0

/-! ## Arithmetic -/

def signedUnits (negative : Bool) (rank : Nat) : Int :=
  if negative then -(units rank : Int) else units rank

/-- The number nearest to a signed count of units; a count of zero takes the given sign. -/
def ofUnits (negativeZero : Bool) (count : Int) : Binary64 :=
  if count = 0 then zero negativeZero
  else ofRank (decide (count < 0)) (nearestRank count.natAbs 1)

/-- The number nearest to an integer, unless it is too large for a finite one. -/
def ofInt? (i : Int) : Option Binary64 :=
  match ofUnits false (i * unitsOfOne) with
  | .infinite _ => none
  | x => some x

/-- The number nearest to `coefficient · 10 ^ exponent`. The two guards answer at once for
exponents beyond every finite number; they change no answer. -/
def ofDecimal (negative : Bool) (coefficient : Nat) (exponent : Int) : Binary64 :=
  if coefficient = 0 then zero negative
  else if 310 ≤ exponent then .infinite negative
  else if exponent + Nat.log2 coefficient + 400 < 0 then zero negative
  else
    let numerator := coefficient * unitsOfOne * Nat.pow 10 exponent.toNat
    ofRank negative (nearestRank numerator (Nat.pow 10 (-exponent).toNat))

/-- The sum, rounded once. A zero sum is negative only if both zeros are. -/
def add : Binary64 → Binary64 → Binary64
  | .nan, _ | _, .nan => .nan
  | .infinite s, .infinite t => if s = t then .infinite s else .nan
  | .infinite s, .finite _ _ | .finite _ _, .infinite s => .infinite s
  | .finite s r, .finite t q => ofUnits (s && t) (signedUnits s r + signedUnits t q)

/-! ## Integers among the numbers -/

/-- The integer a number is equal to, if there is one. -/
def toInt? : Binary64 → Option Int
  | .finite negative rank =>
      if units rank % unitsOfOne = 0 then some (signedUnits negative rank / unitsOfOne) else none
  | _ => none

end Binary64

end LiveValue
