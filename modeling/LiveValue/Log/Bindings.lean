import LiveValue.Log.Event

/-!
# Bound variables

Variables are bound block by block. Entering a block keeps the values that its names had before,
leaving it forgets the names and gives them back those values. This is the work of a library, of
which nothing is known but what it is documented to do; `Bindings` are one way to do it.
-/

namespace LiveValue.Log

/-- A library that binds variables: what is bound in one of its states, what becomes of the state
when a block is entered or left, and what is kept while the block is open. -/
structure Binder where
  State : Type
  Kept : Type
  bound : State → LogVariables
  enter : Fields → State → State × Kept
  leave : Kept → State → State

/-- What the library is documented to do. -/
structure Binder.Documented (B : Binder) : Prop where
  /-- In a block, its own variables stand before those around it. -/
  entered (fresh : Fields) (b : B.State) :
    B.bound (B.enter fresh b).1 = LogVariables.enter fresh (B.bound b)
  /-- After a block, its names stand for what they stood for when it was entered. -/
  restored {fresh : Fields} {name : String} (b ending : B.State) :
    name ∈ fresh.map Prod.fst →
    B.bound (B.leave (B.enter fresh b).2 ending) name = B.bound b name
  /-- To leave a block changes nothing for other names. -/
  untouched {fresh : Fields} {name : String} (b ending : B.State) :
    name ∉ fresh.map Prod.fst →
    B.bound (B.leave (B.enter fresh b).2 ending) name = B.bound ending name

/-! ## Bindings -/

/-- Variables under distinct names. -/
structure Bindings where
  vars : Fields
  distinct : (vars.map Prod.fst).Nodup

/-- A block that was entered: the names it bound, and what they stood for before. -/
structure Block where
  names : List String
  previous : Fields

namespace Bindings

def empty : Bindings := ⟨[], List.nodup_nil⟩

/-- Variables without some names. -/
def unset (vars : Fields) (names : List String) : Fields :=
  vars.filter fun (name, _) => !names.contains name

/-- The variables of some names. -/
def restrict (vars : Fields) (names : List String) : Fields :=
  vars.filter fun (name, _) => names.contains name

def enter (fresh : Fields) (b : Bindings) : Bindings × Block :=
  let names := fresh.map Prod.fst
  (⟨Entries.writeAll fresh b.vars, Entries.nodup_keys_writeAll b.distinct⟩,
    ⟨names, restrict b.vars names⟩)

def leave (block : Block) (b : Bindings) : Bindings where
  vars := Entries.writeAll block.previous (unset b.vars block.names)
  distinct := Entries.nodup_keys_writeAll (b.distinct.sublist (List.filter_sublist.map Prod.fst))

def binder : Binder where
  State := Bindings
  Kept := Block
  bound b name := Entries.find? name b.vars
  enter := enter
  leave := leave

end Bindings

end LiveValue.Log
