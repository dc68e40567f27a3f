import LiveValue.Text.Pieces
import LiveValue.Value.Basic

/-!
# Paths

A path is a text whose segments are separated by slashes; empty segments do not count. A segment
names a key of a mapping or, in plain decimal, a position of a list or tuple. Whatever is missing
yields the undefined value, from which no segment leads on.
-/

namespace LiveValue.Path

def segments (path : String) : List String :=
  ((Text.Pieces.split (· == '/') path.toList).toList.filter fun piece => !piece.isEmpty).map
    String.ofList

/-- The position that a segment names, if it is a plain decimal. Too many digits are a fault. -/
def position? (segment : String) : Except Fault (Option Nat) :=
  let digits := segment.toList
  if digits.isEmpty || !digits.all Char.isDigit then .ok none
  else if Number.maxDigits < digits.length then .error .digitLimit
  else
    let n := Decimal.ofDigits digits
    .ok (if Decimal.digits n = digits then some n else none)

/-- The value that a segment leads to. -/
def step (cursor : Value) (segment : String) : Except Fault Value :=
  match cursor with
  | .map entries => .ok ((Value.field? segment entries).getD .undefined)
  | .list items | .tuple items => do
      match ← position? segment with
      | some i => return items[i]?.getD .undefined
      | none => return .undefined
  | _ => .ok .undefined

/-- The value that segments lead to, one after the other. -/
def walk (source : Value) (segments : List String) : Except Fault Value :=
  segments.foldlM step source

/-- Whether a path starts at the root of the data model in any case. -/
def isAbsolute (path : String) : Bool := path.toList.head? == some '/'

/-- Where a path starts: an absolute one at the data model, a relative one at the scope. A scope of
`null` is none, and then the data model takes its place. -/
def source (dataModel scope : Value) (path : String) : Value :=
  match scope with
  | .null => dataModel
  | scope => if isAbsolute path then dataModel else scope

/-- The value at a path. -/
def resolve (dataModel scope : Value) (path : String) : Except Fault Value :=
  walk (source dataModel scope path) (segments path)

end LiveValue.Path
