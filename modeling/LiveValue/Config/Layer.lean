import LiveValue.Value.Basic

/-!
# Layers of configuration

Configuration comes from several sources, each a mapping. A higher layer goes over a lower one key
by key: where both have a mapping these are merged in turn, everywhere else the higher value wins.
-/

namespace LiveValue.Config

/-- The entries of one source. -/
abbrev Layer := List (Value × Value)

/-- The value under a key that is equal to a given one. -/
def valueAt? (key : Value) : Layer → Option Value
  | [] => none
  | (k, v) :: rest => if Value.sameKey k key then some v else valueAt? key rest

mutual
/-- A value with another one over it. -/
def mergeValue : Value → Value → Value
  | .map high, .map low => .map (mergeEntries high low)
  | high, _ => high

/-- Entries over a lower layer. The keys of the lower layer come first. -/
def mergeEntries : Layer → Layer → Layer
  | [], low => low
  | (key, value) :: rest, low =>
      let merged := match valueAt? key low with
        | some below => mergeValue value below
        | none => value
      mergeEntries rest (Value.insertEntry key merged low)
end

/-- A layer over a lower one. -/
def layered (high low : Layer) : Layer := mergeEntries high low

/-- Layers over one another, the highest first: each one goes under all that came before. -/
def layeredAll (layers : List Layer) : Layer := layers.foldl layered []

def hasOnlyNames (layer : Layer) : Bool :=
  layer.all fun (key, _) => match key with
    | .str _ => true
    | _ => false

end LiveValue.Config
