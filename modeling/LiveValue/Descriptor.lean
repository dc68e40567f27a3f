import LiveValue.Value.Basic

/-!
# Descriptors

A value may describe how to get another value: a mapping with a `call` names a function and its
arguments, a mapping that holds nothing but a `path` refers to data. Every other value is literal.
-/

namespace LiveValue

/-- A described call. The return type is advice that nothing enforces. -/
structure Call where
  name : String
  args : List Value
  returnType : Option String

/-- What a value describes. -/
inductive Descriptor where
  | literal (value : Value)
  | binding (path : String)
  | call (call : Call)

namespace Descriptor

/-- The arguments in a described call: the items of a sequence, the octets of a byte string. -/
def arguments : Option Value → List Value
  | some (.list items) | some (.tuple items) => items
  | some (.bytes octets) => octets.map fun b => Value.ofNat b.toNat
  | _ => []

def string? : Option Value → Option String
  | some (.str s) => some s
  | _ => none

/-- What a mapping describes; a call wins over a path. -/
def ofEntries (entries : List (Value × Value)) : Descriptor :=
  match string? (Value.field? "call" entries) with
  | some name =>
      .call ⟨name, arguments (Value.field? "args" entries),
        string? (Value.field? "returnType" entries)⟩
  | none =>
      match entries with
      | [(.str "path", .str path)] => .binding path
      | _ => .literal (.map entries)

def ofValue : Value → Descriptor
  | .map entries => ofEntries entries
  | value => .literal value

/-- The descriptor of the data at a path. -/
def pathTo (path : String) : Value := .map [(.str "path", .str path)]

end Descriptor

end LiveValue
