import LiveValue.Number.Numeral
import LiveValue.Value.Basic

/-!
# Values as numbers

Every value counts as a number: truth values as one and zero, strings as what they denote, and
whatever denotes nothing as zero.
-/

namespace LiveValue.Value

def toNumber : Value → Except Fault Number
  | .bool b => .ok (.int (if b then 1 else 0))
  | .number n => .ok n
  | .str s => do return (← Number.parse s.toList).getD (.int 0)
  | _ => .ok (.int 0)

/-- The sum of values as numbers, from the integer zero on, left to right. -/
def sum (values : List Value) : Except Fault Number :=
  values.foldlM (fun total value => do total.add (← value.toNumber)) (.int 0)

end LiveValue.Value
