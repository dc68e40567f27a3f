import LiveValue.Value.Basic

/-!
# The order of keys

Strings are ordered by code points, byte strings by octets, numbers by size and tuples by the first
items that differ. Other keys, and keys of different kinds, have no order: to sort them is a fault.
-/

namespace LiveValue.Value

mutual
/-- Whether a key comes before another. -/
def before : Value → Value → Except Fault Bool
  | .str s, .str t => .ok (decide (s < t))
  | .bytes s, .bytes t => .ok (decide (s < t))
  | .tuple xs, .tuple ys => itemsBefore xs ys
  | v, w =>
      match v.asNumber?, w.asNumber? with
      | some m, some n => .ok (m.before n)
      | _, _ => .error .unorderedKeys

/-- Whether the first items that differ are in order; a shorter tuple comes first. -/
def itemsBefore : List Value → List Value → Except Fault Bool
  | [], ys => .ok !ys.isEmpty
  | _ :: _, [] => .ok false
  | x :: xs, y :: ys => if sameKey x y then itemsBefore xs ys else before x y
end

/-- Puts a key behind those that it does not come before. -/
def insertSorted (key : Value) : List Value → Except Fault (List Value)
  | [] => .ok [key]
  | k :: rest => do
      if ← before key k then return key :: k :: rest
      else return k :: (← insertSorted key rest)

def sortKeys (keys : List Value) : Except Fault (List Value) :=
  keys.foldlM (fun sorted key => insertSorted key sorted) []

end LiveValue.Value
