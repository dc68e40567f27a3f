import LiveValue.Table
import LiveValue.Text.Literal

/-!
# Registries

A registry lays one table over another: names are looked up among the overrides first and in the
base after that. It never changes. The names come once each (`nodup_names`), and having a name,
finding an entry under it and listing it are the same thing (`isSome_get?`,
`contains_iff_mem_names`).
-/

namespace LiveValue

/-- Overrides on top of a base. -/
structure Registry (α : Type) where
  overrides : Table α
  base : Table α

namespace Registry

variable {α : Type}

/-- The entries of the base that no override hides. -/
def visibleBase (r : Registry α) : List (String × α) :=
  r.base.entries.filter fun entry => !r.overrides.contains entry.1

/-- All entries that can be looked up: the overrides, then what they leave of the base. -/
def entries (r : Registry α) : List (String × α) := r.overrides.entries ++ r.visibleBase

def names (r : Registry α) : List String := r.entries.map Prod.fst

theorem mem_names {r : Registry α} {name : String} :
    name ∈ r.names ↔ name ∈ r.overrides.names ∨ name ∈ r.base.names := by
  simp only [names, entries, visibleBase, List.map_append, List.mem_append, List.mem_map,
    List.mem_filter, Bool.not_eq_true']
  constructor
  · rintro (h | ⟨e, ⟨he, _⟩, rfl⟩)
    · exact .inl (List.mem_map.2 h)
    · exact .inr (List.mem_map_of_mem he)
  · intro h
    by_cases ho : r.overrides.contains name = true
    · exact .inl (List.mem_map.1 (Table.contains_iff_mem_names.1 ho))
    · rcases h with h | h
      · exact absurd (Table.contains_iff_mem_names.2 h) ho
      · obtain ⟨e, he, rfl⟩ := List.mem_map.1 h
        exact .inr ⟨e, ⟨he, by simpa using ho⟩, rfl⟩

/-- Every name comes once. -/
theorem nodup_names (r : Registry α) : r.names.Nodup := by
  rw [names, entries, List.map_append, List.nodup_append]
  refine ⟨r.overrides.distinct, ?_, ?_⟩
  · exact r.base.distinct.sublist (List.filter_sublist.map _)
  · intro x hx y hy hxy
    obtain ⟨e, he, rfl⟩ := List.mem_map.1 hy
    have hc : r.overrides.contains e.1 = false := by simpa using (List.mem_filter.1 he).2
    have : r.overrides.contains e.1 = true := Table.contains_iff_mem_names.2 (hxy ▸ hx)
    rw [hc] at this
    contradiction

def size (r : Registry α) : Nat := r.overrides.entries.length + r.visibleBase.length

def get? (r : Registry α) (name : String) : Option α :=
  match r.overrides.get? name with
  | some a => some a
  | none => r.base.get? name

def contains (r : Registry α) (name : String) : Bool :=
  r.overrides.contains name || r.base.contains name

theorem size_eq_length_names (r : Registry α) : r.size = r.names.length := by
  simp [size, names, entries]

theorem isSome_get? (r : Registry α) (name : String) :
    (r.get? name).isSome = r.contains name := by
  cases h : r.overrides.get? name <;> simp [get?, contains, Table.contains, h]

theorem contains_iff_mem_names {r : Registry α} {name : String} :
    r.contains name = true ↔ name ∈ r.names := by
  rw [mem_names, contains, Bool.or_eq_true, Table.contains_iff_mem_names,
    Table.contains_iff_mem_names]

/-- Whether an override hides an entry of the base. -/
def isOverridden (r : Registry α) (name : String) : Bool :=
  r.overrides.contains name && r.base.contains name

def sortedNames (r : Registry α) : List String := r.names.mergeSort fun a b => decide (a ≤ b)

/-- A description that lists the sorted names. -/
def describe (r : Registry α) : String :=
  let names := r.sortedNames.map Text.Literal.name
  "FunctionRegistry([" ++ String.ofList ([',', ' '].intercalate names) ++ "])"

end Registry

end LiveValue
