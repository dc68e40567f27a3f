import LiveValue.Number.Basic

/-!
# Values

The data that models hold, functions exchange and templates show. Mappings keep the order in which
their keys were first written; their keys are values, nearly always strings.
-/

namespace LiveValue

/-- A dynamic value. `undefined` says that there is nothing, unlike `null`, which is data. -/
inductive Value where
  | undefined
  | null
  | bool (b : Bool)
  | number (n : Number)
  | str (s : String)
  | list (items : List Value)
  | tuple (items : List Value)
  | set (items : List Value)
  | bytes (octets : List UInt8)
  | map (entries : List (Value × Value))
deriving Inhabited

namespace Value

/-- An integer as a value. -/
@[match_pattern] abbrev int (i : Int) : Value := .number (.int i)

/-- A binary64 number as a value. -/
@[match_pattern] abbrev float (x : Binary64) : Value := .number (.float x)

def ofNat (n : Nat) : Value := .int n

def ofFields (fields : List (String × Value)) : Value :=
  .map (fields.map fun (name, value) => (.str name, value))

def isUndefined : Value → Bool
  | .undefined => true
  | _ => false

/-- Whether a value counts as something: not nothing, false, zero or empty. -/
def isTruthy : Value → Bool
  | .undefined | .null => false
  | .bool b => b
  | .number n => !n.isZero
  | .str s => !s.isEmpty
  | .list items | .tuple items | .set items => !items.isEmpty
  | .bytes octets => !octets.isEmpty
  | .map entries => !entries.isEmpty

/-! ## Keys -/

/-- A truth value counts as one or zero among numbers. -/
def asNumber? : Value → Option Number
  | .bool b => some (.int (if b then 1 else 0))
  | .number n => some n
  | _ => none

mutual
/-- Whether two values are the same key: numbers by their size, whatever their kind, all others by
their content. -/
def sameKey : Value → Value → Bool
  | .undefined, .undefined | .null, .null => true
  | .str s, .str t => s == t
  | .bytes s, .bytes t => s == t
  | .list xs, .list ys | .tuple xs, .tuple ys | .set xs, .set ys => sameKeys xs ys
  | .map xs, .map ys => sameEntries xs ys
  | .bool b, w => (asNumber? w).any (Number.equals (.int (if b then 1 else 0)))
  | .number n, w => (asNumber? w).any n.equals
  | _, _ => false

/-- Item by item. -/
def sameKeys : List Value → List Value → Bool
  | [], [] => true
  | x :: xs, y :: ys => sameKey x y && sameKeys xs ys
  | _, _ => false

/-- Entry by entry. -/
def sameEntries : List (Value × Value) → List (Value × Value) → Bool
  | [], [] => true
  | (k, v) :: xs, (l, w) :: ys => sameKey k l && sameKey v w && sameEntries xs ys
  | _, _ => false
end

/-- Writes an entry: a key that is already there keeps its place and takes the new value. -/
def insertEntry (key value : Value) : List (Value × Value) → List (Value × Value)
  | [] => [(key, value)]
  | (k, v) :: rest =>
      if sameKey k key then (k, value) :: rest else (k, v) :: insertEntry key value rest

def ofEntries (entries : List (Value × Value)) : Value :=
  .map (entries.foldl (fun written (key, value) => insertEntry key value written) [])

/-- The value under a name. -/
def field? (name : String) : List (Value × Value) → Option Value
  | [] => none
  | (.str key, value) :: rest => if key = name then some value else field? name rest
  | _ :: rest => field? name rest

/-- The value under a name of a mapping; no other value has fields. -/
def get? (value : Value) (name : String) : Option Value :=
  match value with
  | .map entries => field? name entries
  | _ => none

end Value

end LiveValue
