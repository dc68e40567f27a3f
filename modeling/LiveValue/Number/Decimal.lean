import LiveValue.Number.Binary64

/-!
# Decimals, and the shortest one that reads back

`Binary64.shortest` gives the decimal with the fewest digits that rounds to a given magnitude, and
of those the nearest one. For each count of digits it tests the two neighbours of the magnitude
among the decimals with that many digits; the first count at which one of them reads back wins.
-/

namespace LiveValue

/-- A decimal `coefficient · 10 ^ exponent`. -/
structure Decimal where
  coefficient : Nat
  exponent : Int
deriving DecidableEq

namespace Decimal

/-- The decimal digits of a natural number, without leading zeros. -/
def digits (n : Nat) : List Char := Nat.toDigits 10 n

def ofDigits (ds : List Char) : Nat := ds.foldl (fun n d => 10 * n + (d.toNat - '0'.toNat)) 0

/-- A count of trailing zeros, at most `fuel`, moves from the coefficient into the exponent. -/
def trim : Nat → Decimal → Decimal
  | 0, d => d
  | fuel + 1, d =>
      if d.coefficient ≠ 0 ∧ d.coefficient % 10 = 0 then
        trim fuel ⟨d.coefficient / 10, d.exponent + 1⟩
      else d

/-- Where the decimal point stands: `10 ^ (point - 1) ≤ value < 10 ^ point`. -/
def point (d : Decimal) : Int := (digits d.coefficient).length + d.exponent

end Decimal

namespace Binary64

/-- The power of ten that makes every grid of at most 17 digits a grid of naturals. -/
def gridPower : Nat := 340

/-- The number of digits, counted from the 324th place, that a magnitude has. -/
def places (rank : Nat) : Nat :=
  (Decimal.digits (units rank * Nat.pow 10 324 / unitsOfOne)).length

/-- Twice the magnitude, on the scale that all decimals in question share. -/
def doubled (rank : Nat) : Nat := 2 * units rank * Nat.pow 10 gridPower

/-- Twice the point halfway down to the next smaller magnitude, on that scale. -/
def lowerEnd (rank : Nat) : Nat := (units (rank - 1) + units rank) * Nat.pow 10 gridPower

/-- Twice the point halfway up to the next larger magnitude, on that scale. -/
def upperEnd (rank : Nat) : Nat := (units rank + units (rank + 1)) * Nat.pow 10 gridPower

/-- Whether a point of that scale rounds to the rank: the ends do if its significand is even. -/
def readsBack (rank point : Nat) : Bool :=
  if significand rank % 2 = 0 then lowerEnd rank ≤ point && point ≤ upperEnd rank
  else lowerEnd rank < point && point < upperEnd rank

/-- The spacing of the decimals with `count` digits around a magnitude. -/
def spacing (rank count : Nat) : Nat := 2 * unitsOfOne * Nat.pow 10 (places rank + 16 - count)

/-- The nearer of the two neighbours with `count` digits that read back, a tie going to the even
one. -/
def neighbour? (rank count : Nat) : Option Decimal :=
  let step := spacing rank count
  let below := doubled rank / step
  let above := below + 1
  let exponent : Int := (places rank : Int) - 324 - count
  let excess := 2 * (doubled rank % step)
  let nearest := if step < excess ∨ (excess = step ∧ below % 2 = 1) then above else below
  let other := if nearest = below then above else below
  if readsBack rank (nearest * step) then some ⟨nearest, exponent⟩
  else if readsBack rank (other * step) then some ⟨other, exponent⟩
  else none

/-- The decimal with the fewest digits that reads back; seventeen digits always do. -/
def shortest (rank : Nat) : Decimal :=
  if rank = 0 then ⟨0, 0⟩
  else
    (((List.range 17).findSome? fun i => neighbour? rank (i + 1)).getD
      ⟨units rank, 0⟩).trim 17

end Binary64

end LiveValue
