import LiveValue.Number.Decimal

/-!
# Layouts of numbers

A layout says how the shortest digits of a number are set out: up to which size an integral number
is written in full, where positional notation begins and ends, how an exponent is padded, and what
the special numbers are called. `Layout.display` is the layout of shown text, `Layout.nested` the
one inside structured text, `Layout.exact` the one that tells every two numbers apart.
-/

namespace LiveValue

/-- The decisions that turn digits into text. -/
structure Layout where
  /-- Integral numbers below this power of ten are written as plain digits. -/
  plainBelow : Int
  /-- Other numbers are positional when their point lies above this place … -/
  positionalAbove : Int
  /-- … and not above this one. -/
  positionalUpTo : Int
  /-- The least count of digits of an exponent. -/
  exponentWidth : Nat
  /-- Whether a positional integral number keeps a fractional zero, and a zero its sign. -/
  marksFloat : Bool
  infinity : String
  nan : String

namespace Layout

/-- Shown text: integers below 10^21 in full, then `1.5`, `1e-7`, `1e+21`. -/
def display : Layout := ⟨21, -4, 16, 1, false, "Infinity", "NaN"⟩

/-- Inside structured text an exponent has at least two digits. -/
def nested : Layout := { display with exponentWidth := 2 }

/-- The exact form: `1.0`, `-0.0`, `1e+16`, `1e-07`, `inf`. -/
def exact : Layout := ⟨-1, -4, 16, 2, true, "inf", "nan"⟩

/-- Digits with the decimal point after `point` places. -/
def positional (layout : Layout) (digits : List Char) (point : Int) : List Char :=
  if point ≤ 0 then '0' :: '.' :: List.replicate (-point).toNat '0' ++ digits
  else if point < digits.length then digits.take point.toNat ++ '.' :: digits.drop point.toNat
  else
    digits ++ List.replicate (point - digits.length).toNat '0' ++
      if layout.marksFloat then ['.', '0'] else []

/-- One digit before the point, then the exponent of ten with its sign. -/
def exponential (layout : Layout) (digits : List Char) (point : Int) : List Char :=
  let mantissa := match digits with
    | d :: e :: rest => d :: '.' :: e :: rest
    | ds => ds
  let size := Decimal.digits (point - 1).natAbs
  mantissa ++ 'e' :: (if point - 1 < 0 then '-' else '+') ::
    List.replicate (layout.exponentWidth - size.length) '0' ++ size

def magnitude (layout : Layout) (rank : Nat) : List Char :=
  if rank = 0 then if layout.marksFloat then ['0', '.', '0'] else ['0']
  else
    let d := Binary64.shortest rank
    let digits := Decimal.digits d.coefficient
    if 0 ≤ d.exponent ∧ d.point ≤ layout.plainBelow then layout.positional digits d.point
    else if layout.positionalAbove < d.point ∧ d.point ≤ layout.positionalUpTo then
      layout.positional digits d.point
    else layout.exponential digits d.point

def write (layout : Layout) : Binary64 → List Char
  | .nan => layout.nan.toList
  | .infinite negative => (if negative then ['-'] else []) ++ layout.infinity.toList
  | .finite negative rank =>
      (if negative && (layout.marksFloat || rank.val != 0) then ['-'] else []) ++
        layout.magnitude rank

end Layout

end LiveValue
