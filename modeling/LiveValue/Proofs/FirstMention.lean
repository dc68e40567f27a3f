import LiveValue.Proofs.SettingSources

/-!
# The first mention decides

Each setting is decided on its own: by the explicit file if that says anything of it, else by the
environment, else by the file of the project, else by the file of the user, and by its default if
none of them does. What a source further down says of the setting does not matter, whether it would
do or not. There is one exception, and only in what is reported: a mapping never does for a setting,
but it is reported with what the sources below give merged under it.

* `Config.mentions`: what sources say of a setting;
* `Config.Decides`: the setting that a mention decides;
* `Config.load_result`: the section that the settings are read from;
* `first_mention_decides`: the settings that all sources give together;
* `shadowed_entries_reported`: mappings that are merged before they are refused.
-/

namespace LiveValue

namespace Config

def mentions (sections : List Layer) (field : String) : List Value :=
  sections.filterMap (Value.field? field)

/-! ## Settings -/

/-- The setting that a value decides: what the value is converted to, or the default without one. -/
def Decides {α : Type} (convert : Value → Except Violation α) (default : α) :
    Option Value → α → Prop
  | none, a => a = default
  | some value, a => convert value = .ok a

theorem readField_eq_ok_iff {α : Type} {fields : Layer} {name : String} {default a : α}
    {convert : Value → Except Violation α} :
    Settings.readField fields name default convert = .ok a ↔
      Decides convert default (Value.field? name fields) a := by
  unfold Settings.readField
  cases Value.field? name fields with
  | none => exact ⟨fun h => (Except.ok.inj h).symm, fun h => congrArg Except.ok h.symm⟩
  | some value =>
    cases hvalue : convert value with
    | error violation => simp [Decides, hvalue, Except.mapError]
    | ok b => simp [Decides, hvalue, Except.mapError]

end Config

namespace Refuses

open Config

variable {α : Type} {convert : Value → Except Violation α} {default a : α}
  {combine : List Layer → Layer} {values : List Value} {value : Value}

/-- What sources hold together does for a setting just when the first of them does. -/
theorem decides_iff (h : Refuses convert) {merged? : Option Value}
    (hcombines : Combines combine values merged?) :
    Decides convert default merged? a ↔ Decides convert default values.head? a := by
  obtain ⟨code, message, hmappings⟩ := h.refusesMappings
  cases hcombines with
  | nothing => rfl
  | first _ => rfl
  | mappings first rest => simp [Decides, hmappings]
  | mixed _ _ => simp [Decides, hmappings]

/-- What sources hold together is refused in the same words as the first of them. -/
theorem eq_error_of_combines (h : Refuses convert) {merged? : Option Value}
    (hcombines : Combines combine values merged?) (hfirst : values.head? = some value)
    (hdefined : value ≠ .undefined) {violation : Violation}
    (hvalue : convert value = .error violation) :
    ∃ shown, merged? = some shown ∧
      convert shown = .error ⟨violation.code, violation.message, [], shown⟩ := by
  obtain ⟨code, message, hmappings⟩ := h.refusesMappings
  have hrefused {entries merged : Layer} (hmap : value = .map entries) :
      convert (.map merged) = .error ⟨violation.code, violation.message, [], .map merged⟩ := by
    rw [hmap, hmappings] at hvalue
    cases hvalue
    exact hmappings merged
  cases hcombines with
  | nothing => cases hfirst
  | first _ =>
    cases hfirst
    obtain ⟨hplace, hinput⟩ := h.blames hdefined hvalue
    obtain ⟨code, message, place, input⟩ := violation
    obtain rfl : place = [] := hplace
    obtain rfl : input = value := hinput
    exact ⟨_, rfl, hvalue⟩
  | mappings first rest =>
    cases hfirst
    exact ⟨_, rfl, hrefused rfl⟩
  | mixed _ _ =>
    cases hfirst
    exact ⟨_, rfl, hrefused rfl⟩

/-- A value that does not do for a setting is refused under the name of its field. -/
theorem readField_eq_error (h : Refuses convert) (default : α) {fields : Layer} {field : String}
    (hcombines : Combines combine values (Value.field? field fields))
    (hfirst : values.head? = some value) (hdefined : value ≠ .undefined) {violation : Violation}
    (hvalue : convert value = .error violation) :
    ∃ shown, Combines combine values (some shown) ∧
      Settings.readField fields field default convert
        = .error ⟨violation.code, violation.message, [field], shown⟩ := by
  obtain ⟨shown, hshown, hrefused⟩ := h.eq_error_of_combines hcombines hfirst hdefined hvalue
  refine ⟨shown, hshown ▸ hcombines, ?_⟩
  unfold Settings.readField
  rw [hshown]
  dsimp only
  rw [hrefused]
  rfl

end Refuses

namespace Config

theorem ofEntries_eq_ok_iff {C : Conversions} {fields : Layer} {settings : Settings} :
    Settings.ofEntries C fields = .ok settings ↔
      Settings.readField fields Settings.maxDepthField Settings.standard.maxDepth (Settings.depth C)
        = .ok settings.maxDepth ∧
      Settings.readField fields Settings.strictTemplatesField Settings.standard.strictTemplates
        C.truthValue = .ok settings.strictTemplates := by
  obtain ⟨maxDepth, strictTemplates⟩ := settings
  unfold Settings.ofEntries
  split
  · next hdepth hstrict => simp [hdepth, hstrict]
  · next hdepth _ => simp [hdepth]
  · next hdepth _ => simp [hdepth]
  · next _ hstrict => simp [hstrict]

/-! ## All sources together -/

/-- What each layer has that gives a section, all of them have. -/
theorem forall_layers_of_gives {P : Layer → Prop}
    (hP : ∀ layer fields, Gives layer fields → P layer) {layers sections : List Layer}
    (h : List.Forall₂ Gives layers sections) : ∀ layer ∈ layers, P layer := by
  induction h with
  | nil => exact List.forall_mem_nil _
  | cons hgives _ ih => exact List.forall_mem_cons.2 ⟨hP _ _ hgives, ih⟩

/-- No source says of a setting that it is undefined. -/
theorem ne_undefined_of_mem_mentions {layers sections : List Layer}
    (h : List.Forall₂ Gives layers sections) {field : String}
    (hfield : field ∈ Environment.fieldNames) :
    ∀ value ∈ mentions sections field, value ≠ .undefined := by
  have hdefined : ∀ fields ∈ sections, Value.field? field fields ≠ some .undefined := by
    induction h with
    | nil => exact List.forall_mem_nil _
    | cons hgives _ ih => exact List.forall_mem_cons.2 ⟨hgives.defined field hfield, ih⟩
  rintro _ hmem rfl
  obtain ⟨fields, hfields, hfound⟩ := List.mem_filterMap.1 hmem
  exact hdefined fields hfields hfound

/-- The sections that there are, those of the other sources left out. -/
theorem exists_present {layers sections : List Layer} (h : List.Forall₂ Gives layers sections) :
    ∃ present : List Layer, layers.filterMap (Value.field? sectionName) = present.map .map ∧
      (∀ fields ∈ present, Value.DistinctNames fields) ∧
      ∀ field, mentions present field = mentions sections field := by
  induction h with
  | nil => exact ⟨[], rfl, List.forall_mem_nil _, fun _ => rfl⟩
  | @cons layer fields layers sections hgives _ ih =>
    obtain ⟨present, hpresent, hdistinct, hsame⟩ := ih
    have hsection := hgives.isSection
    generalize hvalue : Value.field? sectionName layer = section? at hsection
    cases hsection with
    | none =>
      refine ⟨present, ?_, hdistinct, hsame⟩
      rw [List.filterMap_cons, hvalue]
      exact hpresent
    | some fields =>
      refine ⟨fields :: present, ?_, List.forall_mem_cons.2 ⟨hgives.distinctFields, hdistinct⟩,
        fun field => ?_⟩
      · rw [List.filterMap_cons, hvalue, hpresent]
        rfl
      · have hrest :
            present.filterMap (Value.field? field) = sections.filterMap (Value.field? field) :=
          hsame field
        rw [mentions, mentions, List.filterMap_cons, List.filterMap_cons, hrest]

/-- Mappings alone are merged. -/
theorem Combines.eq_of_mappings {combine : List Layer → Layer} {first : Layer} {rest : List Layer}
    {merged? : Option Value} (h : Combines combine ((first :: rest).map .map) merged?) :
    merged? = some (.map (combine (first :: rest))) := by
  have hinjective : Function.Injective Value.map := fun _ _ heq => Value.map.inj heq
  generalize hvalues : (first :: rest).map Value.map = values at h
  cases h with
  | nothing => cases hvalues
  | first hother => exact absurd (List.cons.inj hvalues).1.symm (hother first)
  | mappings first' rest' => rw [hinjective.list_map hvalues]
  | mixed hmem hother =>
    rw [← (List.cons.inj hvalues).2] at hmem
    obtain ⟨entries, -, heq⟩ := List.mem_map.1 hmem
    exact absurd heq.symm (hother entries)

section

variable {L : Libraries} (hL : L.Documented)
include hL

/-- Sources with sections have one together, and in that each field goes its own way. -/
theorem exists_combined {layers sections : List Layer} (h : List.Forall₂ Gives layers sections) :
    ∃ fields, IsSection (Value.field? sectionName (L.combine layers)) fields ∧
      ∀ field, Combines L.combine (mentions sections field) (Value.field? field fields) := by
  have hdistinct := forall_layers_of_gives (fun _ _ hgives => hgives.distinct) h
  obtain ⟨present, hpresent, hfields, hsame⟩ := exists_present h
  have hcombines := hL.combined sectionName hdistinct
  rw [hpresent] at hcombines
  cases present with
  | nil =>
    rw [List.map_nil] at hcombines
    generalize Value.field? sectionName (L.combine layers) = section? at hcombines
    cases hcombines
    exact ⟨[], .none, fun field => hsame field ▸ .nothing⟩
  | cons first rest =>
    rw [hcombines.eq_of_mappings]
    refine ⟨_, .some _, fun field => ?_⟩
    rw [← hsame]
    exact hL.combined field hfields

/-- Keys that are names stay so together. -/
theorem hasOnlyNames_combine {layers : List Layer}
    (h : ∀ layer ∈ layers, hasOnlyNames layer = true) : hasOnlyNames (L.combine layers) = true := by
  refine hasOnlyNames_iff.2 fun entry hentry => ?_
  obtain ⟨layer, hlayer, hkey⟩ := hL.mem_combined entry hentry
  obtain ⟨written, hwritten, hsame⟩ := List.mem_map.1 hkey
  exact hsame ▸ hasOnlyNames_iff.1 (h layer hlayer) written hwritten

end

/-- The result of reading the settings from a section. -/
def sectionResult (C : Conversions) (fields : Layer) : Except Failure Settings :=
  (Settings.ofEntries C fields).mapError fun violations =>
    .report (reportOf (violations.inside sectionName))

/-- What the sources say in the section, the one that goes over all others first. -/
def sectionsOf (sources : Sources) (explicit project user : Layer) : List Layer :=
  [explicit, Environment.givenFields sources.environment, project, user]

section

variable {L : Libraries} (hL : L.Documented) {sources : Sources} {explicit project user : Layer}
include hL

theorem settingsOf_result {entries fields : Layer} (hnames : hasOnlyNames entries = true)
    (h : IsSection (Value.field? sectionName entries) fields) :
    (settingsOf L entries).result = sectionResult L.conversions fields := by
  unfold settingsOf sectionResult
  rw [hL.constructed hnames]
  generalize Value.field? sectionName entries = section? at h
  cases h with
  | none => rfl
  | some fields =>
    rw [Settings.ofSection, hL.conversions.fields]
    dsimp only
    cases Settings.ofEntries L.conversions fields <;> rfl

/-- The settings are read from a section that holds, for each of the fields, what the sections of
all sources say of it, one over the other. -/
theorem load_result (hexplicit : SaysExplicitly L sources.explicit explicit)
    (hproject : Says L sources.project project) (huser : Says L sources.user user)
    (henvironment : Environment.OnlyFields sources.environment) :
    ∃ fields, (load L sources).result = sectionResult L.conversions fields ∧
      ∀ field ∈ Environment.fieldNames,
        Combines L.combine (mentions (sectionsOf sources explicit project user) field)
          (Value.field? field fields) ∧
        ∀ value ∈ mentions (sectionsOf sources explicit project user) field,
          value ≠ .undefined := by
  obtain ⟨high, hreadHigh, hplain, hhigh⟩ := hexplicit.readHighest hL
  obtain ⟨projectLayer, hreadProject, hprojectGives⟩ := hproject.readFile hL
  obtain ⟨userLayer, hreadUser, huserGives⟩ := huser.readFile hL
  obtain ⟨environmentLayer, given, hreadEnvironment, hgives, hgiven⟩ :=
    hL.environment hplain henvironment
  have hall : List.Forall₂ Gives [high, environmentLayer, projectLayer, userLayer]
      [explicit, given, project, user] :=
    .cons hhigh (.cons hgives (.cons hprojectGives (.cons huserGives .nil)))
  obtain ⟨fields, hsection, hcombines⟩ := exists_combined hL hall
  have hnames := hasOnlyNames_combine hL
    (forall_layers_of_gives (fun _ _ hgives => hgives.onlyNames) hall)
  have htaken : (Loading.ofExcept (L.takeArguments high)).result = .ok high := by
    rw [hL.taken hplain]
    rfl
  have hread : (Loading.ofExcept (L.readEnvironment high sources.environment)).result
      = .ok environmentLayer := by
    rw [hreadEnvironment]
    rfl
  refine ⟨fields, ?_, fun field hfield => ?_⟩
  · unfold load
    rw [Loading.bind_of_ok hreadHigh, Loading.bind_of_ok htaken, Loading.bind_of_ok hreadProject,
      Loading.bind_of_ok hreadUser, Loading.bind_of_ok hread]
    exact settingsOf_result hL hnames hsection
  · have hsame : mentions (sectionsOf sources explicit project user) field
        = mentions [explicit, given, project, user] field := by
      have hfields : Value.field? field (Environment.givenFields sources.environment)
          = Value.field? field given :=
        (Environment.field?_givenFields hfield).trans (hgiven field hfield).symm
      simp only [mentions, sectionsOf, List.filterMap_cons, hfields]
    rw [hsame]
    exact ⟨hcombines field, ne_undefined_of_mem_mentions hall hfield⟩

end

/-- What is reported where a value does not do for a setting. -/
def refusal (field message : String) (value : Value) : Report :=
  .config ("Invalid configuration: " ++ message) (some (sectionName ++ "." ++ field)) value

theorem reportOf_cons (field code message : String) (value : Value) (more : List Violation) :
    reportOf (Violations.inside sectionName ⟨⟨code, message, [field], value⟩, more⟩)
      = refusal field message value := by
  have hlocation : ".".intercalate [sectionName, field] = sectionName ++ "." ++ field := by
    simp [String.intercalate_cons_cons]
  exact congrArg (fun location => Report.config _ (some location) value) hlocation

section

variable {L : Libraries} (hL : L.Documented) {sources : Sources} {explicit project user : Layer}
  {value : Value} {violation : Violation}
include hL

theorem load_eq_ok_iff (hexplicit : SaysExplicitly L sources.explicit explicit)
    (hproject : Says L sources.project project) (huser : Says L sources.user user)
    (henvironment : Environment.OnlyFields sources.environment) (settings : Settings) :
    (load L sources).result = .ok settings ↔
      Decides (Settings.depth L.conversions) Settings.standard.maxDepth
        (mentions (sectionsOf sources explicit project user) Settings.maxDepthField).head?
        settings.maxDepth ∧
      Decides L.conversions.truthValue Settings.standard.strictTemplates
        (mentions (sectionsOf sources explicit project user) Settings.strictTemplatesField).head?
        settings.strictTemplates := by
  obtain ⟨fields, hload, hfields⟩ := load_result hL hexplicit hproject huser henvironment
  obtain ⟨hdepth, -⟩ := hfields Settings.maxDepthField (by decide)
  obtain ⟨hstrict, -⟩ := hfields Settings.strictTemplatesField (by decide)
  have hok : sectionResult L.conversions fields = .ok settings ↔
      Settings.ofEntries L.conversions fields = .ok settings := by
    unfold sectionResult
    cases Settings.ofEntries L.conversions fields <;> simp [Except.mapError]
  rw [hload, hok, ofEntries_eq_ok_iff, readField_eq_ok_iff, readField_eq_ok_iff,
    hL.conversions.depth.decides_iff hdepth,
    hL.conversions.truthValue.decides_iff hstrict]

/-- A depth that does not do is reported, whatever there is for the other field. -/
theorem load_of_refused_depth (hexplicit : SaysExplicitly L sources.explicit explicit)
    (hproject : Says L sources.project project) (huser : Says L sources.user user)
    (henvironment : Environment.OnlyFields sources.environment)
    (hmention : (mentions (sectionsOf sources explicit project user)
      Settings.maxDepthField).head? = some value)
    (hvalue : Settings.depth L.conversions value = .error violation) :
    ∃ shown, Combines L.combine
        (mentions (sectionsOf sources explicit project user) Settings.maxDepthField) (some shown) ∧
      (load L sources).result
        = .error (.report (refusal Settings.maxDepthField violation.message shown)) := by
  obtain ⟨fields, hload, hfields⟩ := load_result hL hexplicit hproject huser henvironment
  obtain ⟨hdepth, hdefined⟩ := hfields Settings.maxDepthField (by decide)
  obtain ⟨shown, hshown, hread⟩ := hL.conversions.depth.readField_eq_error
    Settings.standard.maxDepth hdepth hmention (hdefined value (List.mem_of_mem_head? hmention)) hvalue
  refine ⟨shown, hshown, ?_⟩
  rw [hload, sectionResult, Settings.ofEntries, hread]
  cases Settings.readField fields Settings.strictTemplatesField _ L.conversions.truthValue <;>
    exact congrArg (fun report => Except.error (Failure.report report)) (reportOf_cons ..)

/-- A truth value that does not do is reported if the depth does. -/
theorem load_of_refused_truthValue (hexplicit : SaysExplicitly L sources.explicit explicit)
    (hproject : Says L sources.project project) (huser : Says L sources.user user)
    (henvironment : Environment.OnlyFields sources.environment) {maxDepth : Nat}
    (hdecides : Decides (Settings.depth L.conversions) Settings.standard.maxDepth
      (mentions (sectionsOf sources explicit project user) Settings.maxDepthField).head? maxDepth)
    (hmention : (mentions (sectionsOf sources explicit project user)
      Settings.strictTemplatesField).head? = some value)
    (hvalue : L.conversions.truthValue value = .error violation) :
    ∃ shown, Combines L.combine
        (mentions (sectionsOf sources explicit project user) Settings.strictTemplatesField)
        (some shown) ∧
      (load L sources).result
        = .error (.report (refusal Settings.strictTemplatesField violation.message shown)) := by
  obtain ⟨fields, hload, hfields⟩ := load_result hL hexplicit hproject huser henvironment
  obtain ⟨hdepth, -⟩ := hfields Settings.maxDepthField (by decide)
  obtain ⟨hstrict, hdefined⟩ := hfields Settings.strictTemplatesField (by decide)
  obtain ⟨shown, hshown, hread⟩ := hL.conversions.truthValue.readField_eq_error
    Settings.standard.strictTemplates hstrict hmention (hdefined value (List.mem_of_mem_head? hmention))
    hvalue
  have hother := readField_eq_ok_iff.2 ((hL.conversions.depth.decides_iff hdepth).2 hdecides)
  refine ⟨shown, hshown, ?_⟩
  rw [hload, sectionResult, Settings.ofEntries, hread, hother]
  exact congrArg (fun report => Except.error (Failure.report report)) (reportOf_cons ..)

/-- Each setting is decided by the first source that mentions it, and by its default where none
does. Settings are loaded just if the values that decide both do; otherwise the first that does not
is reported under the name of its field, a mapping together with what lies under it. -/
theorem first_mention_decides (hexplicit : SaysExplicitly L sources.explicit explicit)
    (hproject : Says L sources.project project) (huser : Says L sources.user user)
    (henvironment : Environment.OnlyFields sources.environment) :
    let said := mentions (sectionsOf sources explicit project user)
    (∀ settings, (load L sources).result = .ok settings ↔
      Decides (Settings.depth L.conversions) Settings.standard.maxDepth
        (said Settings.maxDepthField).head? settings.maxDepth ∧
      Decides L.conversions.truthValue Settings.standard.strictTemplates
        (said Settings.strictTemplatesField).head? settings.strictTemplates) ∧
    (∀ value violation, (said Settings.maxDepthField).head? = some value →
      Settings.depth L.conversions value = .error violation →
      ∃ shown, Combines L.combine (said Settings.maxDepthField) (some shown) ∧
        (load L sources).result
          = .error (.report (refusal Settings.maxDepthField violation.message shown))) ∧
    (∀ maxDepth value violation,
      Decides (Settings.depth L.conversions) Settings.standard.maxDepth
        (said Settings.maxDepthField).head? maxDepth →
      (said Settings.strictTemplatesField).head? = some value →
      L.conversions.truthValue value = .error violation →
      ∃ shown, Combines L.combine (said Settings.strictTemplatesField) (some shown) ∧
        (load L sources).result
          = .error (.report (refusal Settings.strictTemplatesField violation.message shown))) :=
  ⟨load_eq_ok_iff hL hexplicit hproject huser henvironment,
    fun _ _ hmention hvalue =>
      load_of_refused_depth hL hexplicit hproject huser henvironment hmention hvalue,
    fun _ _ _ hdecides hmention hvalue =>
      load_of_refused_truthValue hL hexplicit hproject huser henvironment hdecides hmention hvalue⟩

end

/-- A depth that no setting could have, below the variable for it. -/
def shadowedDepth : Sources where
  explicit := none
  environment := [("BINDERY_ENGINE__MAX_DEPTH", "12"), ("bindery_engine__strict_templates", "Yes")]
  project := ⟨"bindery.yaml", some "engine: {max_depth: 500}"⟩
  user := ⟨"config.yaml", some ""⟩

theorem first_mention_decides_shadowed :
    Libraries.stock.Documented ∧ (load .stock shadowedDepth).result = .ok ⟨12, true⟩ := by
  have hproject : Says .stock shadowedDepth.project [(.str "max_depth", .number (.int 500))] :=
    .ofSection (by cbv)
  have huser : Says .stock shadowedDepth.user [] := .empty (by cbv)
  obtain ⟨hloaded, -⟩ := first_mention_decides Libraries.documented_stock .none hproject huser
    (by decide)
  exact ⟨Libraries.documented_stock, (hloaded ⟨12, true⟩).2 ⟨by cbv, by cbv⟩⟩

/-- Mappings that stand where a depth should, in two files. -/
def nestedDepths : Sources where
  explicit := none
  environment := []
  project := ⟨"bindery.yaml", some "engine: {max_depth: {a: 1}}"⟩
  user := ⟨"config.yaml", some "engine: {max_depth: {b: 2}}"⟩

/-- The value that decides is the mapping of the project, but more than that is reported: the
mapping of the user below it shows as well. -/
theorem shadowed_entries_reported :
    let project : Layer := [(.str "max_depth", .map [(.str "a", .number (.int 1))])]
    let user : Layer := [(.str "max_depth", .map [(.str "b", .number (.int 2))])]
    let chosen : Value := .map [(.str "a", .number (.int 1))]
    let message := "Input should be a valid integer"
    SaysExplicitly .stock nestedDepths.explicit [] ∧ Says .stock nestedDepths.project project ∧
      Says .stock nestedDepths.user user ∧ Environment.OnlyFields nestedDepths.environment ∧
      (mentions (sectionsOf nestedDepths [] project user) Settings.maxDepthField).head?
        = some chosen ∧
      Settings.depth .lax chosen = .error ⟨"int_type", message, [], chosen⟩ ∧
      (load .stock nestedDepths).result = .error (.report (refusal Settings.maxDepthField message
        (.map [(.str "b", .number (.int 2)), (.str "a", .number (.int 1))]))) ∧
      (load .stock nestedDepths).result
        ≠ .error (.report (refusal Settings.maxDepthField message chosen)) := by
  intro project user chosen message
  have hproject : Says .stock nestedDepths.project project := .ofSection (by cbv)
  have huser : Says .stock nestedDepths.user user := .ofSection (by cbv)
  obtain ⟨shown, hshown, hload⟩ := load_of_refused_depth Libraries.documented_stock .none hproject
    huser (by decide) rfl (show Settings.depth .lax chosen = .error ⟨_, message, [], chosen⟩ from rfl)
  have hmappings : mentions (sectionsOf nestedDepths [] project user) Settings.maxDepthField
      = [[(.str "a", .number (.int 1))], [(.str "b", .number (.int 2))]].map Value.map := rfl
  have hmerged : layeredAll [[(.str "a", .number (.int 1))], [(.str "b", .number (.int 2))]]
      = [(.str "b", .number (.int 2)), (.str "a", .number (.int 1))] := by cbv
  rw [hmappings] at hshown
  obtain rfl : shown = .map [(.str "b", .number (.int 2)), (.str "a", .number (.int 1))] :=
    (Option.some.inj hshown.eq_of_mappings).trans (congrArg Value.map hmerged)
  refine ⟨.none, hproject, huser, by decide, rfl, rfl, hload, ?_⟩
  rw [hload]
  simp [refusal, chosen]

end Config
end LiveValue
