import LiveValue.Config.Layer
import LiveValue.Proofs.Addresses
import LiveValue.Proofs.Conversions
import LiveValue.Yaml.Document

/-!
# Layers by name

What a layer holds under a name, after entries were written into it and after another layer went
over it: each name goes its own way. This needs that no name occurs twice in a layer, which is so
in everything that is read from a YAML text.

* `Value.field?_insertEntry_self`, `Value.field?_insertEntry_of_ne`: after writing an entry;
* `Config.field?_layered`: after layering;
* `Yaml.tidy_of_read`: what is read from a text.
-/

namespace LiveValue

namespace Value

/-! ## Entries under a name -/

variable {name : String} {key value : Value} {entries rest : List (Value × Value)}

theorem sameKey_str_iff : sameKey key (.str name) = true ↔ key = .str name := by
  cases key <;> simp [sameKey, asNumber?]

theorem str_sameKey_iff : sameKey (.str name) key = true ↔ key = .str name := by
  cases key with
  | str other =>
    rw [sameKey, beq_iff_eq, Value.str.injEq]
    exact eq_comm
  | _ => simp [sameKey]

theorem field?_cons_self : field? name ((.str name, value) :: rest) = some value := by
  rw [field?, if_pos rfl]

theorem field?_cons_of_ne (h : key ≠ .str name) :
    field? name ((key, value) :: rest) = field? name rest := by
  cases key with
  | str other => rw [field?, if_neg fun heq => h (congrArg Value.str heq)]
  | _ =>
    rw [field?]
    intro other content heq
    cases heq

theorem field?_eq_none_iff :
    field? name entries = none ↔ ∀ entry ∈ entries, entry.1 ≠ .str name := by
  induction entries with
  | nil => simp [field?]
  | cons head rest ih =>
    obtain ⟨key, value⟩ := head
    by_cases hkey : key = .str name
    · subst hkey
      simp [field?_cons_self]
    · rw [field?_cons_of_ne hkey, ih, List.forall_mem_cons]
      exact ⟨fun h => ⟨hkey, h⟩, fun h => h.2⟩

theorem field?_insertEntry_self :
    field? name (insertEntry (.str name) value entries) = some value := by
  induction entries with
  | nil => exact field?_cons_self
  | cons head rest ih =>
    obtain ⟨key, old⟩ := head
    rw [insertEntry]
    split
    · next hsame =>
      rw [sameKey_str_iff.1 hsame, field?_cons_self]
    · next hother =>
      rw [field?_cons_of_ne fun heq => hother (sameKey_str_iff.2 heq), ih]

theorem field?_insertEntry_of_ne (h : key ≠ .str name) :
    field? name (insertEntry key value entries) = field? name entries := by
  induction entries with
  | nil => rw [insertEntry, field?_cons_of_ne h]
  | cons head rest ih =>
    obtain ⟨k, old⟩ := head
    rw [insertEntry]
    split
    · next hsame =>
      have hk : k ≠ .str name := by
        rintro rfl
        exact h (str_sameKey_iff.1 hsame)
      rw [field?_cons_of_ne hk, field?_cons_of_ne hk]
    · by_cases hk : k = .str name
      · rw [hk, field?_cons_self, field?_cons_self]
      · rw [field?_cons_of_ne hk, field?_cons_of_ne hk, ih]

/-- What an entry holds after writing is what was written or what some entry held before, and its
key was written or was there. -/
theorem of_mem_insertEntry {entry : Value × Value} (h : entry ∈ insertEntry key value entries) :
    (entry.2 = value ∨ entry ∈ entries) ∧ (entry.1 = key ∨ entry.1 ∈ entries.map Prod.fst) := by
  induction entries with
  | nil =>
    rw [insertEntry, List.mem_singleton] at h
    subst h
    exact ⟨.inl rfl, .inl rfl⟩
  | cons head rest ih =>
    obtain ⟨k, old⟩ := head
    rw [insertEntry] at h
    split at h
    · rcases List.mem_cons.1 h with rfl | hrest
      · exact ⟨.inl rfl, .inr List.mem_cons_self⟩
      · exact ⟨.inr (List.mem_cons_of_mem _ hrest),
          .inr (List.mem_map_of_mem (List.mem_cons_of_mem _ hrest))⟩
    · rcases List.mem_cons.1 h with rfl | hrest
      · exact ⟨.inr List.mem_cons_self, .inr List.mem_cons_self⟩
      · obtain ⟨hvalue, hkey⟩ := ih hrest
        exact ⟨hvalue.imp_right (List.mem_cons_of_mem _), hkey.imp_right (List.mem_cons_of_mem _)⟩

/-! ## Names that occur once -/

/-- No two keys are the same name. -/
def DistinctNames (entries : List (Value × Value)) : Prop :=
  entries.Pairwise fun a b => ∀ name, a.1 = .str name → b.1 ≠ .str name

namespace DistinctNames

theorem tail {head : Value × Value} (h : DistinctNames (head :: rest)) : DistinctNames rest :=
  (List.pairwise_cons.1 h).2

/-- The name of the first entry does not come again. -/
theorem field?_tail (h : DistinctNames ((.str name, value) :: rest)) : field? name rest = none :=
  field?_eq_none_iff.2 fun entry hentry => (List.pairwise_cons.1 h).1 entry hentry name rfl

theorem insertEntry (h : DistinctNames entries) :
    DistinctNames (insertEntry key value entries) := by
  induction entries with
  | nil => exact List.pairwise_singleton _ _
  | cons head rest ih =>
    obtain ⟨k, old⟩ := head
    obtain ⟨hfirst, hrest⟩ := List.pairwise_cons.1 h
    rw [Value.insertEntry]
    split
    · exact List.pairwise_cons.2 ⟨hfirst, hrest⟩
    · next hother =>
      refine List.pairwise_cons.2 ⟨fun entry hentry name hk hname => ?_, ih hrest⟩
      obtain rfl : k = .str name := hk
      rcases (of_mem_insertEntry hentry).2 with hkey | hmem
      · exact hother (str_sameKey_iff.2 (hkey.symm.trans hname))
      · obtain ⟨other, hother, hsame⟩ := List.mem_map.1 hmem
        exact hfirst other hother name rfl (hsame.trans hname)

theorem foldl {written : List (Value × Value)} (h : DistinctNames written) :
    DistinctNames (entries.foldl
      (fun written (key, value) => Value.insertEntry key value written) written) := by
  induction entries generalizing written with
  | nil => exact h
  | cons head rest ih => exact ih h.insertEntry

/-- Entries under distinct names are found after they were written one after the other. -/
theorem field?_foldl (h : DistinctNames entries) (written : List (Value × Value)) :
    field? name (entries.foldl
      (fun written (key, value) => Value.insertEntry key value written) written)
      = (field? name entries).or (field? name written) := by
  induction entries generalizing written with
  | nil => rfl
  | cons head rest ih =>
    obtain ⟨key, value⟩ := head
    rw [List.foldl_cons, ih h.tail]
    by_cases hkey : key = .str name
    · subst hkey
      rw [h.field?_tail, field?_insertEntry_self, field?_cons_self]
      rfl
    · rw [field?_insertEntry_of_ne hkey, field?_cons_of_ne hkey]

/-- Writing entries under distinct names, one after the other, makes a mapping of these names. -/
theorem ofEntries (h : DistinctNames entries) :
    ∃ fields, Value.ofEntries entries = .map fields ∧ DistinctNames fields ∧
      ∀ name, field? name fields = field? name entries :=
  ⟨_, rfl, foldl .nil, fun _ => (h.field?_foldl []).trans Option.or_none⟩

end DistinctNames

end Value

/-! ## Layers over each other -/

namespace Config

/-- What there is under a name when a layer with `high` under it lies over one with `low`. -/
def overlaid (high low : Option Value) : Option Value :=
  match high, low with
  | some high, some low => some (mergeValue high low)
  | some high, none => some high
  | none, low => low

theorem valueAt?_str (name : String) (layer : Layer) :
    valueAt? (.str name) layer = Value.field? name layer := by
  induction layer with
  | nil => rfl
  | cons head rest ih =>
    obtain ⟨key, value⟩ := head
    rw [valueAt?]
    split
    · next hsame => rw [Value.sameKey_str_iff.1 hsame, Value.field?_cons_self]
    · next hother =>
      rw [Value.field?_cons_of_ne fun heq => hother (Value.sameKey_str_iff.2 heq), ih]

/-- Every name goes its own way when a layer is put over another one. -/
theorem field?_layered {high : Layer} (h : Value.DistinctNames high) (low : Layer) (name : String) :
    Value.field? name (layered high low)
      = overlaid (Value.field? name high) (Value.field? name low) := by
  unfold layered
  induction high generalizing low with
  | nil => rfl
  | cons head rest ih =>
    obtain ⟨key, value⟩ := head
    rw [mergeEntries, ih h.tail]
    by_cases hkey : key = .str name
    · subst hkey
      rw [h.field?_tail, Value.field?_cons_self, Value.field?_insertEntry_self, valueAt?_str]
      cases Value.field? name low <;> rfl
    · rw [Value.field?_insertEntry_of_ne hkey, Value.field?_cons_of_ne hkey]

end Config

/-! ## What is read from a text -/

namespace Value

/-- Data as a text spells it out: nothing in it is undefined, and no mapping has two entries under
one name. -/
inductive Tidy : Value → Prop
  | null : Tidy .null
  | bool (b : Bool) : Tidy (.bool b)
  | number (n : Number) : Tidy (.number n)
  | str (s : String) : Tidy (.str s)
  | bytes (octets : List UInt8) : Tidy (.bytes octets)
  | list {items : List Value} : (∀ item ∈ items, item.Tidy) → Tidy (.list items)
  | tuple {items : List Value} : (∀ item ∈ items, item.Tidy) → Tidy (.tuple items)
  | set {items : List Value} : (∀ item ∈ items, item.Tidy) → Tidy (.set items)
  | map {entries : List (Value × Value)} :
      DistinctNames entries → (∀ entry ∈ entries, entry.2.Tidy) → Tidy (.map entries)

namespace Tidy

variable {v : Value} {entries : List (Value × Value)} {name : String}

theorem ne_undefined (h : v.Tidy) : v ≠ .undefined := by
  cases h <;> nofun

theorem distinctNames (h : (Value.map entries).Tidy) : DistinctNames entries := by
  cases h with
  | map hnames _ => exact hnames

theorem field (h : (Value.map entries).Tidy) (hfield : field? name entries = some v) : v.Tidy := by
  cases h with
  | map _ hvalues => exact hvalues _ (mem_of_field? hfield)

/-- A mapping that is written entry by entry. -/
theorem ofEntries (h : ∀ entry ∈ entries, entry.2.Tidy) : (ofEntries entries).Tidy := by
  have hwritten : ∀ written : List (Value × Value), (∀ entry ∈ written, entry.2.Tidy) →
      ∀ entry ∈ entries.foldl (fun written (key, value) => insertEntry key value written) written,
        entry.2.Tidy := by
    induction entries with
    | nil => exact fun written hwritten => hwritten
    | cons head rest ih =>
      obtain ⟨key, value⟩ := head
      rw [List.forall_mem_cons] at h
      intro written hwritten
      refine ih h.2 _ fun entry hentry => ?_
      rcases (of_mem_insertEntry hentry).1 with hvalue | hmem
      · rw [hvalue]
        exact h.1
      · exact hwritten entry hmem
  exact .map (DistinctNames.foldl .nil) (hwritten [] (List.forall_mem_nil _))

end Tidy

end Value

namespace Yaml

theorem Scalar.tidy_of_resolve {text : List Char} {v : Value} (h : resolve text = .ok v) :
    v.Tidy := by
  unfold resolve at h
  dsimp only at h
  split at h
  · cases h
  split at h
  · cases h
    exact .null
  split at h
  · cases h
    exact .bool true
  split at h
  · cases h
    exact .bool false
  split at h
  · next n _ =>
    cases n with
    | error _ => cases h
    | ok i =>
      cases h
      exact .number _
  · split at h
    · cases h
      exact .number _
    · cases h
      exact .str _

namespace Node

/-- The first entry of a mapping comes from its node, the others from theirs. -/
theorem of_entryValues_cons {key node : Node} {rest : List (Node × Node)}
    {es : List (Value × Value)} (h : entryValues ((key, node) :: rest) = .ok es) :
    ∃ k v more, node.value = .ok v ∧ entryValues rest = .ok more ∧ es = (k, v) :: more := by
  -- whichever way the key is read, the same follows
  obtain ⟨k, h⟩ : ∃ k, (if isKey k then do
      let v ← node.value
      return (k, v) :: (← entryValues rest)
      else .error .malformed) = .ok es := by
    unfold entryValues at h
    dsimp only at h
    split at h <;> exact (bind_eq_ok.1 h).imp fun k hk => hk.2
  split at h
  · obtain ⟨v, hnode, h⟩ := bind_eq_ok.1 h
    obtain ⟨more, hrest, hes⟩ := bind_eq_ok.1 h
    exact ⟨k, v, more, hnode, hrest, (Except.ok.inj hes).symm⟩
  · cases h

mutual
theorem tidy_of_value (node : Node) {v : Value} (h : node.value = .ok v) : v.Tidy := by
  cases node with
  | plain text => exact Scalar.tidy_of_resolve h
  | quoted text =>
    cases h
    exact .str _
  | sequence items =>
    rw [value] at h
    obtain ⟨vs, hitems, hv⟩ := bind_eq_ok.1 h
    cases hv
    exact .list (tidy_of_values items hitems)
  | mapping entries =>
    rw [value] at h
    obtain ⟨es, hentries, hv⟩ := bind_eq_ok.1 h
    cases hv
    exact .ofEntries (tidy_of_entryValues entries hentries)

theorem tidy_of_values (nodes : List Node) {vs : List Value} (h : values nodes = .ok vs) :
    ∀ v ∈ vs, v.Tidy := by
  cases nodes with
  | nil =>
    cases h
    nofun
  | cons node rest =>
    rw [values] at h
    obtain ⟨v, hnode, h⟩ := bind_eq_ok.1 h
    obtain ⟨more, hrest, hvs⟩ := bind_eq_ok.1 h
    cases hvs
    exact List.forall_mem_cons.2 ⟨tidy_of_value node hnode, tidy_of_values rest hrest⟩

theorem tidy_of_entryValues (entries : List (Node × Node)) {es : List (Value × Value)}
    (h : entryValues entries = .ok es) : ∀ e ∈ es, e.2.Tidy := by
  cases entries with
  | nil =>
    cases h
    nofun
  | cons head rest =>
    obtain ⟨key, node⟩ := head
    obtain ⟨k, v, more, hnode, hrest, rfl⟩ := of_entryValues_cons h
    exact List.forall_mem_cons.2 ⟨tidy_of_value node hnode, tidy_of_entryValues rest hrest⟩
end

end Node

/-- Everything that is read from a text is tidy. -/
theorem tidy_of_read {text : String} {v : Value} (h : read text = .ok v) : v.Tidy := by
  unfold read at h
  dsimp only at h
  split at h
  · split at h
    · next node _ => exact node.tidy_of_value h
    · cases h
  · cases h

end Yaml

end LiveValue
