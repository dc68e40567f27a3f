/-!
# Faults

Everything that can stop an evaluation. Missing data is not among them: an absent path, an unknown
function or an odd descriptor yields the undefined value.
-/

namespace LiveValue

/-- Why an evaluation stopped. -/
inductive Fault where
  /-- Calls, expressions and templates nest deeper than the limit. -/
  | nesting (depth limit : Int) (expression : Option String)
  /-- The placeholder at this position of a strict template is never closed. -/
  | unterminated (template : String) (position : Nat)
  /-- A decimal text or an integer has more digits than may be converted. -/
  | digitLimit
  /-- A number or a date lies outside the range of its type. -/
  | outOfRange
  /-- A host function gave up. -/
  | host (message : String)
  /-- Something other than a mapping stands where one is needed. -/
  | notMapping
  /-- Keys of a mapping have no common order. -/
  | unorderedKeys
deriving DecidableEq

end LiveValue
