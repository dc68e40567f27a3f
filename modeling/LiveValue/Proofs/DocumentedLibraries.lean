import LiveValue.Config.Environment
import LiveValue.Config.Load
import LiveValue.Proofs.Layers

/-!
# What the libraries for the configuration do

All that is known of the libraries is written down in their documentation: how sources are merged,
which variables stand for which fields, what becomes of values, and what is raised instead.

* `Config.Environment.OnlyFields`, `Config.Environment.fieldText?`: variables for single fields;
* `Config.Combines`: what sources hold together under a name;
* `Config.Gives`: a source with a section;
* `Conversions.Documented`, `Config.Libraries.Documented`: the documentation.
-/

namespace LiveValue

/-! ## Conversions -/

/-- A conversion blames the very value that it was given, and it takes no mapping. -/
structure Refuses {α : Type} (convert : Value → Except Violation α) : Prop where
  blames {value : Value} {violation : Violation} : value ≠ .undefined →
    convert value = .error violation → violation.place = [] ∧ violation.input = value
  refusesMappings : ∃ code message, ∀ entries,
    convert (.map entries) = .error ⟨code, message, [], .map entries⟩

/-- What is documented of conversions. -/
structure Conversions.Documented (C : Conversions) : Prop where
  integer (least most : Nat) : Refuses (C.integer least most)
  truthValue : Refuses C.truthValue
  /-- An integer is not below its least value and not above its largest one. -/
  bounds {least most n : Nat} {value : Value} :
    C.integer least most value = .ok n → least ≤ n ∧ n ≤ most
  fields (entries : List (Value × Value)) : C.fields (.map entries) = .ok entries

theorem Conversions.Documented.depth {C : Conversions} (hC : C.Documented) :
    Refuses (Settings.depth C) :=
  hC.integer 1 Settings.maxDepthCeiling

namespace Config

/-! ## Variables of the environment -/

namespace Environment

/-- The folded name of the variable for a field. -/
def fieldVariable (field : String) : List Char := sectionVariable ++ '_' :: '_' :: field.toList

/-- The text of the variable for a field; of several spellings the last counts. -/
def fieldText? (environment : List (String × String)) (field : String) : Option String :=
  (environment.reverse.find? fun (name, _) => folded name == fieldVariable field).map Prod.snd

def fieldNames : List String := [Settings.maxDepthField, Settings.strictTemplatesField]

/-- Of the variables for the section, none is set but those for its two fields. -/
def OnlyFields (environment : List (String × String)) : Prop :=
  ∀ entry ∈ environment, folded entry.1 ≠ sectionVariable ∧
    (sectionVariable ++ ['_', '_'] <+: folded entry.1 →
      ∃ field ∈ fieldNames, folded entry.1 = fieldVariable field)

instance (environment : List (String × String)) : Decidable (OnlyFields environment) :=
  inferInstanceAs (Decidable (∀ entry ∈ environment, folded entry.1 ≠ sectionVariable ∧
    (sectionVariable ++ ['_', '_'] <+: folded entry.1 →
      ∃ field ∈ fieldNames, folded entry.1 = fieldVariable field)))

/-- The variable for the section holds a text that is no JSON. -/
def HoldsNoJson (environment : List (String × String)) : Prop :=
  ∃ text, sectionText? environment = some text ∧ Value.ofJson? text = none

end Environment

/-! ## Sources -/

/-- The keys are names, and none of them starts with an underscore. -/
def PlainNames (layer : Layer) : Prop :=
  ∀ entry ∈ layer, ∃ name, entry.1 = .str name ∧ name.toList.head? ≠ some '_'

theorem hasOnlyNames_iff {layer : Layer} :
    hasOnlyNames layer = true ↔ ∀ entry ∈ layer, ∃ name, entry.1 = .str name := by
  rw [hasOnlyNames, List.all_eq_true]
  refine forall₂_congr fun entry _ => ?_
  obtain ⟨key, value⟩ := entry
  cases key <;> simp

theorem PlainNames.hasOnlyNames {layer : Layer} (h : PlainNames layer) :
    hasOnlyNames layer = true :=
  hasOnlyNames_iff.2 fun entry hentry => (h entry hentry).imp fun _ hname => hname.1

/-- A source gives a section with these entries, or none and then there are none. -/
inductive IsSection : Option Value → Layer → Prop
  | none : IsSection none []
  | some (entries : Layer) : IsSection (some (.map entries)) entries

/-- A layer that was read from a source with this section. -/
structure Gives (layer fields : Layer) : Prop where
  onlyNames : hasOnlyNames layer = true
  distinct : Value.DistinctNames layer
  isSection : IsSection (Value.field? sectionName layer) fields
  distinctFields : Value.DistinctNames fields
  defined : ∀ field ∈ Environment.fieldNames, Value.field? field fields ≠ some .undefined

theorem Gives.nil : Gives [] [] := ⟨rfl, .nil, .none, .nil, nofun⟩

/-- What sources hold together under a name, given the values that they hold there one by one: the
first one counts, but mappings are merged with mappings. Where a mapping comes first and something
else comes behind it, no more is known than that a mapping results. -/
inductive Combines (combine : List Layer → Layer) : List Value → Option Value → Prop
  | nothing : Combines combine [] none
  | first {value : Value} {rest : List Value} :
      (∀ entries, value ≠ .map entries) → Combines combine (value :: rest) (some value)
  | mappings (first : Layer) (rest : List Layer) :
      Combines combine ((first :: rest).map .map) (some (.map (combine (first :: rest))))
  | mixed {entries merged : Layer} {other : Value} {rest : List Value} :
      other ∈ rest → (∀ below, other ≠ .map below) →
      Combines combine (.map entries :: rest) (some (.map merged))

/-! ## The documentation -/

/-- What is documented of the libraries. -/
structure Libraries.Documented (L : Libraries) : Prop where
  conversions : L.conversions.Documented
  /-- In what is read nothing is undefined, and mappings have distinct keys. -/
  tidy {text : String} {v : Value} : L.readText text = .ok v → v.Tidy
  /-- Arguments are entries, save for options; and their names start with an underscore. -/
  taken {given : Layer} : PlainNames given → L.takeArguments given = .ok given
  mem_taken {given entries : Layer} : L.takeArguments given = .ok entries →
    ∀ entry ∈ entries, entry ∈ given
  /-- Variables for fields make up a section with their texts. -/
  environment {given : Layer} {environment : List (String × String)} :
    PlainNames given → Environment.OnlyFields environment →
    ∃ layer fields, L.readEnvironment given environment = .ok layer ∧ Gives layer fields ∧
      ∀ field ∈ Environment.fieldNames,
        Value.field? field fields = (Environment.fieldText? environment field).map Value.str
  onlyNames {given layer : Layer} {environment : List (String × String)} :
    L.readEnvironment given environment = .ok layer → hasOnlyNames layer = true
  /-- A variable for the section has to hold JSON. -/
  unparsed {given : Layer} {environment : List (String × String)} {error : Raised} :
    PlainNames given → (L.readEnvironment given environment = .error error ↔
      Environment.HoldsNoJson environment ∧ error = .unparsed sectionName)
  /-- Sources are merged name by name. -/
  combined {layers : List Layer} (name : String) :
    (∀ layer ∈ layers, Value.DistinctNames layer) →
    Combines L.combine (layers.filterMap (Value.field? name))
      (Value.field? name (L.combine layers))
  mem_combined {layers : List Layer} :
    ∀ entry ∈ L.combine layers, ∃ layer ∈ layers, entry.1 ∈ layer.map Prod.fst
  /-- The settings are made as they are declared, -/
  constructed {entries : Layer} : hasOnlyNames entries = true →
    L.construct entries
      = (Settings.ofSection L.conversions (Value.field? sectionName entries)).mapError
          fun violations => .invalid (violations.inside sectionName)
  /-- by a call, so that keys have to be names. -/
  keyword {entries : Layer} : hasOnlyNames entries = false →
    L.construct entries = .error (.raised .keyword)

end Config

end LiveValue
