import LiveValue.Entries

/-!
# Tables

A table gives each of its names one entry, in the order in which the names were first written.
-/

namespace LiveValue

/-- Entries under distinct names, in order. -/
structure Table (α : Type) where
  entries : List (String × α)
  distinct : (entries.map Prod.fst).Nodup

namespace Table

variable {α : Type}

def empty : Table α := ⟨[], List.nodup_nil⟩

def names (t : Table α) : List String := t.entries.map Prod.fst

def get? (t : Table α) (name : String) : Option α := Entries.find? name t.entries

def contains (t : Table α) (name : String) : Bool := (t.get? name).isSome

def isEmpty (t : Table α) : Bool := t.entries.isEmpty

/-- A table with one more entry, or with another entry under a name that it has. -/
def insert (t : Table α) (name : String) (a : α) : Table α :=
  ⟨Entries.write name a t.entries, Entries.nodup_keys_write t.distinct⟩

def ofList (entries : List (String × α)) : Table α :=
  ⟨Entries.writeAll entries [], Entries.nodup_keys_writeAll List.nodup_nil⟩

theorem contains_iff_mem_names {t : Table α} {name : String} :
    t.contains name = true ↔ name ∈ t.names :=
  Entries.isSome_find?

theorem get?_insert (t : Table α) (name x : String) (a : α) :
    (t.insert name a).get? x = if name = x then some a else t.get? x :=
  Entries.find?_write x name a t.entries

theorem get?_ofList (entries : List (String × α)) (name : String) :
    (ofList entries).get? name = Entries.find? name entries.reverse := by
  simp [ofList, get?, Entries.find?_writeAll, Entries.find?]

end Table

end LiveValue
