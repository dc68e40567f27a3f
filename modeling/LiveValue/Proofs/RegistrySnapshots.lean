import LiveValue.Host.Builtin
import LiveValue.Host.Stock
import LiveValue.Registry
import Mathlib

/-!
# Registries over mappings that change

A host keeps the mappings that it makes a registry of, and may add to them later. The registry looks
at copies of its own, so that it goes on to lay what stood in the overrides when it was made over
what stood in the base.

* `Shelf`: the mappings that there are, each at its place;
* `Registry.make`: a registry from mappings of the host, which are copied to new places;
* `Registry.view_addAll_make`: what the host adds afterwards does not reach the registry;
* `Registry.names_eq`, `Registry.sortedNames_spec`: in which order names are listed and described;
* `registry_overlays_snapshots`: the answers of a registry at any later time.
-/

namespace LiveValue

/-! ## Mappings at places -/

/-- The mappings that there are, each at its place. -/
abbrev Shelf (α : Type) := List (Table α)

/-- An entry that is added to the mapping at a place. -/
structure Addition (α : Type) where
  place : Nat
  name : String
  entry : α

namespace Shelf

variable {α : Type} {place : Nat}

def read (shelf : Shelf α) (place : Nat) : Table α := shelf[place]?.getD .empty

/-- Adds an entry to a mapping, or replaces the one under its name. -/
def add (shelf : Shelf α) (a : Addition α) : Shelf α :=
  shelf.modify a.place fun table => table.insert a.name a.entry

def addAll (shelf : Shelf α) (additions : List (Addition α)) : Shelf α := additions.foldl add shelf

/-- Other mappings stay as they are. -/
theorem read_add_of_ne (shelf : Shelf α) {a : Addition α} (h : a.place ≠ place) :
    (shelf.add a).read place = shelf.read place := by
  rw [read, add, List.getElem?_modify_ne _ _ h, read]

theorem read_addAll_of_ne {additions : List (Addition α)} (h : ∀ a ∈ additions, a.place ≠ place)
    (shelf : Shelf α) : (shelf.addAll additions).read place = shelf.read place := by
  induction additions generalizing shelf with
  | nil => rfl
  | cons a rest ih =>
    obtain ⟨ha, hrest⟩ := List.forall_mem_cons.1 h
    rw [addAll, List.foldl_cons]
    exact (ih hrest (shelf.add a)).trans (read_add_of_ne shelf ha)

end Shelf

namespace Registry

variable {α : Type}

/-! ## Making a registry -/

/-- The places of the two mappings that a registry looks at. -/
structure Places where
  overrides : Nat
  base : Nat

/-- The registry that looks at two places. -/
def view (shelf : Shelf α) (places : Places) : Registry α :=
  ⟨shelf.read places.overrides, shelf.read places.base⟩

/-- Makes a registry from mappings of the host, both of which are copied. Without overrides there
are none, and without a base a standard one stands underneath. -/
def make (standard : Table α) (shelf : Shelf α) (overrides base : Option Nat) :
    Shelf α × Places :=
  (shelf ++ [(overrides.map shelf.read).getD .empty, (base.map shelf.read).getD standard],
    ⟨shelf.length, shelf.length + 1⟩)

/-- Whatever is added to the mappings that the host has, the registry stays what it was made of. -/
theorem view_addAll_make (standard : Table α) {shelf : Shelf α} (overrides base : Option Nat)
    {additions : List (Addition α)} (h : ∀ a ∈ additions, a.place < shelf.length) :
    let made := make standard shelf overrides base
    view (made.1.addAll additions) made.2
      = ⟨(overrides.map shelf.read).getD .empty, (base.map shelf.read).getD standard⟩ := by
  have hoverrides : ∀ a ∈ additions, a.place ≠ shelf.length := fun a ha => Nat.ne_of_lt (h a ha)
  have hbase : ∀ a ∈ additions, a.place ≠ shelf.length + 1 := fun a ha =>
    Nat.ne_of_lt (Nat.lt_succ_of_lt (h a ha))
  simp only [make, view, Shelf.read_addAll_of_ne hoverrides, Shelf.read_addAll_of_ne hbase]
  simp [Shelf.read]

/-! ## What a registry lists -/

/-- The names of the overrides come first, then those of the base that are not among them. -/
theorem names_eq (r : Registry α) :
    r.names = r.overrides.names ++ r.base.names.filter (· ∉ r.overrides.names) := by
  have hvisible : r.visibleBase.map Prod.fst = r.base.names.filter (· ∉ r.overrides.names) := by
    rw [visibleBase, Table.names, Table.names, List.filter_map]
    congr 1
    refine List.filter_congr fun entry _ => ?_
    rw [Bool.eq_iff_iff, Bool.not_eq_true', ← Bool.not_eq_true, Table.contains_iff_mem_names]
    simp [Table.names]
  rw [names, entries, List.map_append, hvisible]
  rfl

theorem get?_eq (r : Registry α) (name : String) :
    r.get? name = (r.overrides.get? name).or (r.base.get? name) := by
  rw [get?]
  cases r.overrides.get? name <;> rfl

theorem isOverridden_iff {r : Registry α} {name : String} :
    r.isOverridden name = true ↔ name ∈ r.overrides.names ∧ name ∈ r.base.names := by
  rw [isOverridden, Bool.and_eq_true, Table.contains_iff_mem_names, Table.contains_iff_mem_names]

/-- The names from the smallest to the largest, each of them once. -/
theorem sortedNames_spec (r : Registry α) :
    r.sortedNames.Perm r.names ∧ r.sortedNames.Pairwise (· < ·) := by
  have hperm : r.sortedNames.Perm r.names := List.mergeSort_perm _ _
  have hsorted : r.sortedNames.Pairwise (· ≤ ·) := List.pairwise_mergeSort' (· ≤ ·) r.names
  have hdistinct : r.sortedNames.Nodup := hperm.nodup_iff.2 r.nodup_names
  exact ⟨hperm, (hsorted.and hdistinct).imp fun ⟨hle, hne⟩ => lt_of_le_of_ne hle hne⟩

end Registry

open Registry

/-- **A registry lays snapshots over each other.** Made from two mappings of a host or without one
of them, it answers at any later time, whatever was added to the mappings of the host since then: it
lists the names of the overrides and then the other names of the base, both in their order and each
name once, and its size is their number. It has an entry under exactly these names, which is that of
the overrides before that of the base. A name is overridden if both have it. The description lists
all names in their order as texts. -/
theorem registry_overlays_snapshots (shelf : Shelf HostFunction) (overrides base : Option Nat)
    (additions : List (Addition HostFunction)) (h : ∀ a ∈ additions, a.place < shelf.length) :
    let above := (overrides.map shelf.read).getD .empty
    let below := (base.map shelf.read).getD Builtin.table
    let made := make Builtin.table shelf overrides base
    let r := view (made.1.addAll additions) made.2
    r.names = above.names ++ below.names.filter (· ∉ above.names) ∧ r.names.Nodup ∧
    r.size = r.names.length ∧
    (∀ name, (r.contains name = true ↔ name ∈ r.names) ∧
      ((∃ f, r.get? name = some f) ↔ name ∈ r.names) ∧
      r.get? name = (above.get? name).or (below.get? name) ∧
      (r.isOverridden name = true ↔ name ∈ above.names ∧ name ∈ below.names)) ∧
    ∃ sorted : List String, sorted.Perm r.names ∧ sorted.Pairwise (· < ·) ∧
      r.describe = "FunctionRegistry([" ++
        String.ofList ([',', ' '].intercalate (sorted.map Text.Literal.name)) ++ "])" := by
  intro above below made r
  have hr : r = ⟨above, below⟩ := view_addAll_make Builtin.table overrides base h
  rw [hr]
  refine ⟨names_eq _, nodup_names _, size_eq_length_names _, fun name => ⟨?_, ?_, ?_, ?_⟩, ?_⟩
  · exact contains_iff_mem_names
  · rw [← Option.isSome_iff_exists, isSome_get?, contains_iff_mem_names]
  · exact get?_eq _ name
  · exact isOverridden_iff
  · obtain ⟨hperm, hsorted⟩ := sortedNames_spec (⟨above, below⟩ : Registry HostFunction)
    exact ⟨_, hperm, hsorted, rfl⟩

/-- A host that has put a function of its own over a built-in one. -/
def hostShelf : Shelf HostFunction :=
  [⟨[("upper", Stock.function "upper" .upper), ("add", Stock.function "add" .count)], by decide⟩]

/-- It hides another built-in function afterwards, and gives up the first one for it. -/
def laterAdditions : List (Addition HostFunction) :=
  [⟨0, "concat", Stock.function "concat" .count⟩, ⟨0, "add", Builtin.add⟩]

theorem registry_overlays_snapshots_hidden :
    let made := make Builtin.table hostShelf (some 0) none
    let r := view (made.1.addAll laterAdditions) made.2
    (∀ a ∈ laterAdditions, a.place < hostShelf.length) ∧
    r.names = ["upper", "add", "now", "concat", "formatString"] ∧
    r.get? "add" = some (Stock.function "add" .count) ∧ r.isOverridden "concat" = false := by
  intro made r
  have hplaces : ∀ a ∈ laterAdditions, a.place < hostShelf.length := by
    simp [laterAdditions, hostShelf]
  obtain ⟨hnames, -, -, hentries, -⟩ :=
    registry_overlays_snapshots hostShelf (some 0) none laterAdditions hplaces
  refine ⟨hplaces, hnames.trans (by decide), (hentries "add").2.2.1.trans rfl, ?_⟩
  rw [← Bool.not_eq_true, (hentries "concat").2.2.2]
  decide

end LiveValue
