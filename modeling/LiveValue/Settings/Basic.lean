/-!
# Settings of the engine

How deeply an evaluation may nest, and whether a placeholder that is never closed is an error.
-/

namespace LiveValue

/-- The settings of an evaluation. -/
structure Settings where
  maxDepth : Nat
  strictTemplates : Bool
deriving DecidableEq

namespace Settings

/-- The nesting allowed when nothing else is said. -/
def defaultMaxDepth : Nat := 64

/-- The most nesting that can be asked for. -/
def maxDepthCeiling : Nat := 100

def standard : Settings := ⟨defaultMaxDepth, false⟩

end Settings

end LiveValue
