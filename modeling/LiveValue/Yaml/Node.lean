import LiveValue.Yaml.Scalar

/-!
# Nodes

What a YAML text is made of before its plain scalars are resolved.
-/

namespace LiveValue.Yaml

/-- A scalar, a sequence or a mapping. -/
inductive Node where
  | plain (text : List Char)
  | quoted (text : List Char)
  | sequence (items : List Node)
  | mapping (entries : List (Node × Node))
deriving Inhabited

namespace Node

/-- Whether a value can be a key: sequences and mappings cannot. -/
def isKey : Value → Bool
  | .list _ | .map _ => false
  | _ => true

mutual
def value : Node → Except Failure Value
  | .plain text => Scalar.resolve text
  | .quoted text => .ok (.str (String.ofList text))
  | .sequence items => do return .list (← values items)
  | .mapping entries => do return .ofEntries (← entryValues entries)

def values : List Node → Except Failure (List Value)
  | [] => .ok []
  | node :: rest => do
      let first ← node.value
      return first :: (← values rest)

/-- The entries of a mapping, in order. -/
def entryValues : List (Node × Node) → Except Failure (List (Value × Value))
  | [] => .ok []
  | (key, node) :: rest => do
      let k ← match key with
        | .plain text => Scalar.resolveKey text
        | node => node.value
      if isKey k then
        let v ← node.value
        return (k, v) :: (← entryValues rest)
      else .error .malformed
end

end Node

end LiveValue.Yaml
