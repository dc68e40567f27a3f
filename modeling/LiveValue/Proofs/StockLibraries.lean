import LiveValue.Config.Stock
import LiveValue.Proofs.DocumentedLibraries

/-!
# The ready-made libraries

The ready-made libraries do what is documented of libraries for the configuration, so that what is
shown from the documentation is not shown of nothing.

* `Conversions.documented_lax`: conversions;
* `Config.Environment.fields_spec`: what the variables for single fields make up;
* `Config.combines_layeredAll`: layers over each other;
* `Config.Libraries.documented_stock`: all of it.
-/

namespace LiveValue

/-! ## Conversions -/

namespace Settings

theorem refuses_of_blame {α : Type} {value : Value} {converted : Except Violation.Kind α}
    {violation : Violation} (h : blame value converted = .error violation) :
    violation.place = [] ∧ violation.input = value := by
  cases converted with
  | ok a => cases h
  | error kind =>
    cases h
    exact ⟨rfl, rfl⟩

theorem eq_of_blame_eq_ok {α : Type} {value : Value} {converted : Except Violation.Kind α} {a : α}
    (h : blame value converted = .ok a) : converted = .ok a := by
  cases converted with
  | error kind => cases h
  | ok b =>
    cases h
    rfl

theorem bounds_of_bounded {least most n : Nat} {i : Int} (h : bounded least most i = .ok n) :
    least ≤ n ∧ n ≤ most := by
  unfold bounded at h
  split at h
  · cases h
  · split at h
    · cases h
    · cases h
      omega

theorem refuses_boundedInteger (least most : Nat) : Refuses (boundedInteger least most) where
  blames {value violation} hdefined h := by
    have hvalue : value.isUndefined = false := by
      cases value with
      | undefined => exact absurd rfl hdefined
      | _ => rfl
    rw [boundedInteger, hvalue] at h
    exact refuses_of_blame h
  refusesMappings := ⟨_, _, fun _ => rfl⟩

theorem refuses_truthValue : Refuses truthValue where
  blames _ h := refuses_of_blame h
  refusesMappings := ⟨_, _, fun _ => rfl⟩

end Settings

theorem Conversions.documented_lax : lax.Documented where
  integer := Settings.refuses_boundedInteger
  truthValue := Settings.refuses_truthValue
  bounds {least most n value} h := by
    change Settings.boundedInteger least most value = .ok n at h
    unfold Settings.boundedInteger at h
    split at h
    · cases Settings.eq_of_blame_eq_ok h
    · obtain ⟨i, -, hi⟩ := bind_eq_ok.1 (Settings.eq_of_blame_eq_ok h)
      exact Settings.bounds_of_bounded hi
  fields _ := rfl

namespace Config

/-! ## The environment -/

namespace Environment

variable {environment : List (String × String)} {field : String}

theorem keys?_fieldVariable (h : field ∈ fieldNames) :
    keys? (fieldVariable field) = some (field, []) := by
  simp only [fieldNames, List.mem_cons, List.not_mem_nil, or_false] at h
  rcases h with rfl | rfl <;> decide

theorem keys?_eq_none {name : List Char} (h : ¬sectionVariable ++ ['_', '_'] <+: name) :
    keys? name = none := by
  unfold keys?
  exact if_neg fun hprefix => h (List.isPrefixOf_iff_prefix.1 hprefix)

theorem fieldVariable_injective {other : String} (h : fieldVariable field = fieldVariable other) :
    field = other := by
  have hrest := List.append_cancel_left h
  exact String.toList_injective (List.cons.inj (List.cons.inj hrest).2).2

/-- The variables in order: each one is written over what those before it say of its field. -/
theorem fields_concat (before : List (String × String)) (name text : String) :
    (fields (before ++ [(name, text)]) = match keys? (folded name) with
      | some (first, more) => place (.str text) first more (fields before)
      | none => fields before) := by
  rw [fields, List.foldl_append]
  rfl

theorem fieldText?_concat (before : List (String × String)) (name text : String) :
    fieldText? (before ++ [(name, text)]) field
      = if folded name = fieldVariable field then some text else fieldText? before field := by
  rw [fieldText?, List.reverse_append, List.reverse_singleton, List.singleton_append,
    List.find?_cons]
  by_cases h : folded name = fieldVariable field
  · simp [h]
  · have hbeq : (folded name == fieldVariable field) = false := beq_eq_false_iff_ne.2 h
    simp [h, hbeq, fieldText?]

/-- Single fields make up entries under their names. -/
theorem fields_spec (h : OnlyFields environment) :
    Value.DistinctNames (fields environment) ∧
    (∀ entry ∈ fields environment, ∃ field ∈ fieldNames, entry.1 = .str field) ∧
    ∀ field ∈ fieldNames,
      Value.field? field (fields environment) = (fieldText? environment field).map Value.str := by
  induction environment using List.reverseRecOn with
  | nil => exact ⟨.nil, nofun, fun _ _ => rfl⟩
  | append_singleton before last ih =>
    obtain ⟨name, text⟩ := last
    obtain ⟨hdistinct, hkeys, hfields⟩ := ih fun entry hentry =>
      h entry (List.mem_append_left _ hentry)
    obtain ⟨-, hlast⟩ := h (name, text) List.mem_concat_self
    rw [fields_concat]
    by_cases hprefix : sectionVariable ++ ['_', '_'] <+: folded name
    · obtain ⟨field, hfield, hname⟩ := hlast hprefix
      dsimp only at hname
      rw [hname, keys?_fieldVariable hfield]
      refine ⟨hdistinct.insertEntry, fun entry hentry => ?_, fun other hother => ?_⟩
      · rcases (Value.of_mem_insertEntry hentry).2 with hkey | hmem
        · exact ⟨field, hfield, hkey⟩
        · obtain ⟨old, hold, hsame⟩ := List.mem_map.1 hmem
          exact hsame ▸ hkeys old hold
      · rw [fieldText?_concat, hname]
        by_cases hsame : field = other
        · subst hsame
          rw [if_pos rfl]
          exact Value.field?_insertEntry_self
        · rw [if_neg fun heq => hsame (fieldVariable_injective heq), ← hfields other hother]
          exact Value.field?_insertEntry_of_ne fun heq => hsame (Value.str.inj heq)
    · rw [keys?_eq_none hprefix]
      refine ⟨hdistinct, hkeys, fun field hfield => ?_⟩
      have hname : ¬folded name = fieldVariable field := fun heq =>
        hprefix ⟨field.toList, by rw [heq, fieldVariable, List.append_assoc]; rfl⟩
      rw [fieldText?_concat, if_neg hname, hfields field hfield]

theorem withFieldNames_eq {entries : Layer}
    (h : ∀ entry ∈ entries, ∃ field ∈ fieldNames, entry.1 = .str field) :
    withFieldNames entries = .ofEntries entries := by
  have hname : ∀ field ∈ fieldNames, fieldName field = field := by decide
  unfold withFieldNames
  congr 1
  refine (List.map_congr_left fun entry hentry => ?_).trans (List.map_id _)
  obtain ⟨key, value⟩ := entry
  obtain ⟨field, hfield, rfl⟩ := h _ hentry
  exact congrArg (fun name => (Value.str name, value)) (hname field hfield)

end Environment

/-- A layer that holds nothing but a section. -/
theorem Gives.ofEntries {entries : Layer} (h : Value.DistinctNames entries)
    (hdefined : ∀ field ∈ Environment.fieldNames, Value.field? field entries ≠ some .undefined) :
    ∃ fields, Gives [(.str sectionName, .ofEntries entries)] fields ∧
      ∀ field, Value.field? field fields = Value.field? field entries := by
  obtain ⟨fields, hfields, hwritten, hsame⟩ := h.ofEntries
  rw [hfields]
  refine ⟨fields, ⟨rfl, List.pairwise_singleton _ _, ?_, hwritten, fun field hfield => ?_⟩, hsame⟩
  · rw [Value.field?_cons_self]
    exact .some fields
  · rw [hsame]
    exact hdefined field hfield

/-- The variables for single fields make up the section that is read from the environment. -/
theorem Environment.OnlyFields.readEnvironment {environment : List (String × String)}
    (h : OnlyFields environment) :
    ∃ layer fields, Stock.readEnvironment environment = .ok layer ∧ Gives layer fields ∧
      ∀ field ∈ fieldNames,
        Value.field? field fields = (fieldText? environment field).map Value.str := by
  obtain ⟨hdistinct, hkeys, hfields⟩ := fields_spec h
  have hsection : sectionText? environment = none := by
    unfold sectionText?
    rw [Option.map_eq_none_iff, List.find?_eq_none]
    intro entry hentry hsame
    exact (h entry (List.mem_reverse.1 hentry)).1 (beq_iff_eq.1 hsame)
  unfold Stock.readEnvironment readSection?
  rw [hsection]
  dsimp only
  generalize fields environment = entries at hdistinct hkeys hfields
  cases entries with
  | nil => exact ⟨[], [], rfl, .nil, hfields⟩
  | cons head rest =>
    dsimp only
    rw [withFieldNames_eq hkeys]
    have hdefined : ∀ field ∈ fieldNames,
        Value.field? field (head :: rest) ≠ some .undefined := by
      intro field hfield
      rw [hfields field hfield]
      cases fieldText? environment field <;> nofun
    obtain ⟨fields, hgives, hsame⟩ := Gives.ofEntries hdistinct hdefined
    exact ⟨_, fields, rfl, hgives, fun field hfield => (hsame field).trans (hfields field hfield)⟩

/-- The environment is not read just where the variable for the section holds no JSON. -/
theorem Stock.readEnvironment_eq_error {environment : List (String × String)} {error : Raised} :
    Stock.readEnvironment environment = .error error ↔
      Environment.HoldsNoJson environment ∧ error = .unparsed sectionName := by
  unfold Stock.readEnvironment Environment.readSection? Environment.HoldsNoJson
  cases Environment.sectionText? environment with
  | none => cases Environment.fields environment <;> simp
  | some text =>
    cases hjson : Value.ofJson? text with
    | none => simp [hjson, eq_comm]
    | some value => cases value <;> simp [hjson]

theorem Stock.hasOnlyNames_of_readEnvironment {environment : List (String × String)}
    {layer : Layer} (h : Stock.readEnvironment environment = .ok layer) :
    hasOnlyNames layer = true := by
  unfold Stock.readEnvironment at h
  split at h <;> cases h <;> rfl

/-! ## Layers -/

theorem mergeValue_of_ne {value : Value} (h : ∀ entries, value ≠ .map entries) (low : Value) :
    mergeValue value low = value := by
  cases value with
  | map entries => exact absurd rfl (h entries)
  | _ => rw [mergeValue]; nofun

/-- A mapping stays a mapping, whatever goes under it. -/
theorem exists_mergeValue_map (high : Layer) (low : Value) :
    ∃ merged, mergeValue (.map high) low = .map merged := by
  cases low with
  | map entries => exact ⟨_, mergeValue.eq_1 high entries⟩
  | _ => exact ⟨high, by rw [mergeValue]; nofun⟩

theorem distinctNames_layered {high low : Layer} (h : Value.DistinctNames low) :
    Value.DistinctNames (layered high low) := by
  unfold layered
  induction high generalizing low with
  | nil => exact h
  | cons head rest ih =>
    rw [mergeEntries]
    exact ih h.insertEntry

theorem mem_layered {high low : Layer} {entry : Value × Value} (h : entry ∈ layered high low) :
    entry.1 ∈ high.map Prod.fst ∨ entry.1 ∈ low.map Prod.fst := by
  unfold layered at h
  induction high generalizing low with
  | nil => exact .inr (List.mem_map_of_mem h)
  | cons head rest ih =>
    rw [mergeEntries] at h
    rcases ih h with hrest | hlow
    · exact .inl (List.mem_cons_of_mem _ hrest)
    · obtain ⟨written, hwritten, hsame⟩ := List.mem_map.1 hlow
      rw [← hsame]
      rcases (Value.of_mem_insertEntry hwritten).2 with hkey | hmem
      · exact .inl (hkey ▸ List.mem_cons_self)
      · exact .inr hmem

/-- What values hold together, each going under those before it. -/
def underAll (value : Value) (below : List Value) : Value := below.foldl mergeValue value

theorem underAll_of_ne {value : Value} (h : ∀ entries, value ≠ .map entries)
    (below : List Value) : underAll value below = value := by
  induction below with
  | nil => rfl
  | cons low rest ih =>
    rw [underAll, List.foldl_cons, mergeValue_of_ne h]
    exact ih

theorem exists_underAll_map (high : Layer) (below : List Value) :
    ∃ merged, underAll (.map high) below = .map merged := by
  induction below generalizing high with
  | nil => exact ⟨high, rfl⟩
  | cons low rest ih =>
    obtain ⟨merged, hmerged⟩ := exists_mergeValue_map high low
    rw [underAll, List.foldl_cons, hmerged]
    exact ih merged

theorem underAll_mappings (high : Layer) (below : List Layer) :
    underAll (.map high) (below.map .map) = .map (below.foldl layered high) := by
  induction below generalizing high with
  | nil => rfl
  | cons low rest ih =>
    rw [List.map_cons, underAll, List.foldl_cons, mergeValue]
    exact ih (layered high low)

/-- Under a name there is what the layers hold there, each one under those before it. -/
theorem field?_foldl_layered {state : Layer} {layers : List Layer} (name : String)
    (hstate : Value.DistinctNames state) (h : ∀ layer ∈ layers, Value.DistinctNames layer) :
    Value.field? name (layers.foldl layered state)
      = match Value.field? name state, layers.filterMap (Value.field? name) with
        | some value, below => some (underAll value below)
        | none, value :: below => some (underAll value below)
        | none, [] => none := by
  induction layers generalizing state with
  | nil =>
    rw [List.foldl_nil, List.filterMap_nil]
    cases Value.field? name state <;> rfl
  | cons low rest ih =>
    obtain ⟨hlow, hrest⟩ := List.forall_mem_cons.1 h
    rw [List.foldl_cons, ih (distinctNames_layered hlow) hrest, field?_layered hstate,
      List.filterMap_cons]
    cases Value.field? name state <;> cases Value.field? name low <;> rfl

theorem exists_map_or_other (values : List Value) :
    (∃ layers : List Layer, values = layers.map .map) ∨
      ∃ other ∈ values, ∀ entries, other ≠ .map entries := by
  induction values with
  | nil => exact .inl ⟨[], rfl⟩
  | cons value rest ih =>
    cases value with
    | map entries =>
      rcases ih with ⟨layers, rfl⟩ | ⟨other, hmem, hother⟩
      · exact .inl ⟨entries :: layers, rfl⟩
      · exact .inr ⟨other, List.mem_cons_of_mem _ hmem, hother⟩
    | _ => exact .inr ⟨_, List.mem_cons_self, nofun⟩

theorem combines_layeredAll {layers : List Layer} (name : String)
    (h : ∀ layer ∈ layers, Value.DistinctNames layer) :
    Combines layeredAll (layers.filterMap (Value.field? name))
      (Value.field? name (layeredAll layers)) := by
  rw [layeredAll, field?_foldl_layered name .nil h]
  dsimp only [Value.field?]
  cases layers.filterMap (Value.field? name) with
  | nil => exact .nothing
  | cons value below =>
    dsimp only
    by_cases hmap : ∃ entries, value = .map entries
    · obtain ⟨entries, rfl⟩ := hmap
      rcases exists_map_or_other below with ⟨rest, rfl⟩ | ⟨other, hmem, hother⟩
      · rw [underAll_mappings]
        exact .mappings entries rest
      · obtain ⟨merged, hmerged⟩ := exists_underAll_map entries below
        rw [hmerged]
        exact .mixed hmem hother
    · rw [underAll_of_ne (not_exists.1 hmap)]
      exact .first (not_exists.1 hmap)

theorem mem_foldl_layered {state : Layer} {layers : List Layer} {entry : Value × Value}
    (h : entry ∈ layers.foldl layered state) :
    entry.1 ∈ state.map Prod.fst ∨ ∃ layer ∈ layers, entry.1 ∈ layer.map Prod.fst := by
  induction layers generalizing state with
  | nil => exact .inl (List.mem_map_of_mem h)
  | cons low rest ih =>
    rcases ih h with hstate | ⟨layer, hmem, hkey⟩
    · obtain ⟨found, hfound, hsame⟩ := List.mem_map.1 hstate
      rw [← hsame]
      exact (mem_layered hfound).imp_right fun hlow => ⟨low, List.mem_cons_self, hlow⟩
    · exact .inr ⟨layer, List.mem_cons_of_mem _ hmem, hkey⟩

/-! ## All of it -/

/-- Arguments with plain names have no option among them. -/
theorem Stock.takeArguments_of_plainNames {given : Layer} (h : PlainNames given) :
    Stock.takeArguments given = .ok given := by
  have hnone : Value.field? Stock.fileOption given = none := by
    refine Value.field?_eq_none_iff.2 fun entry hentry hsame => ?_
    obtain ⟨name, hname, hplain⟩ := h entry hentry
    obtain rfl : name = Stock.fileOption := Value.str.inj (hname.symm.trans hsame)
    exact hplain (by decide)
  unfold Stock.takeArguments
  rw [hnone]

theorem Stock.eq_of_takeArguments {given entries : Layer}
    (h : Stock.takeArguments given = .ok entries) : entries = given := by
  unfold Stock.takeArguments at h
  split at h
  · split at h <;> cases h
    rfl
  · cases h
    rfl

/-- The ready-made libraries do what is documented. -/
theorem Libraries.documented_stock : stock.Documented where
  conversions := Conversions.documented_lax
  tidy {text v} h := by
    change Stock.readText text = .ok v at h
    unfold Stock.readText at h
    cases hread : Yaml.read text with
    | error failure =>
      rw [hread] at h
      cases failure <;> cases h
    | ok found =>
      rw [hread] at h
      cases h
      exact Yaml.tidy_of_read hread
  taken := Stock.takeArguments_of_plainNames
  mem_taken h entry hentry := Stock.eq_of_takeArguments h ▸ hentry
  environment _ h := h.readEnvironment
  onlyNames := Stock.hasOnlyNames_of_readEnvironment
  unparsed _ := Stock.readEnvironment_eq_error
  combined := combines_layeredAll
  mem_combined entry h := (mem_foldl_layered h).resolve_left nofun
  constructed h := if_pos h
  keyword h := if_neg (Bool.eq_false_iff.1 h)

end Config

end LiveValue
