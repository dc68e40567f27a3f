import LiveValue.Proofs.LoadingFailures

/-!
# Where settings come from

Files and variables say of the settings what their sections hold. A file that is absent or empty
says nothing; of the variables, each one for a field is an entry of a section that they make up
together.

* `Config.Environment.givenFields`: what variables say in their section;
* `Config.Says`: what a file says in its section;
* `Config.Says.readFile`, `Config.SaysExplicitly.readHighest`: the layers that are read.
-/

namespace LiveValue

namespace Config

/-! ## What the environment says -/

namespace Environment

/-- The section that the variables for its fields make up. -/
def givenFields (environment : List (String × String)) : Layer :=
  fieldNames.filterMap fun field =>
    (fieldText? environment field).map fun text => (.str field, .str text)

variable {environment : List (String × String)} {field : String}

theorem field?_givenFields (h : field ∈ fieldNames) :
    Value.field? field (givenFields environment)
      = (fieldText? environment field).map Value.str := by
  have hnames : ∀ names : List String, Value.field? field (names.filterMap fun name =>
      (fieldText? environment name).map fun text => (Value.str name, Value.str text))
      = if field ∈ names then (fieldText? environment field).map Value.str else none := by
    intro names
    induction names with
    | nil => rfl
    | cons name rest ih =>
      rw [List.filterMap_cons]
      by_cases hname : name = field
      · subst hname
        cases htext : fieldText? environment name with
        | none => simp [ih, htext]
        | some text => simp [Value.field?_cons_self]
      · have hne : ¬field = name := fun heq => hname heq.symm
        have hkey : Value.str name ≠ .str field := fun heq => hname (Value.str.inj heq)
        cases fieldText? environment name with
        | none => simp [ih, hne]
        | some text => simp [ih, hne, Value.field?_cons_of_ne hkey]
  rw [givenFields, hnames, if_pos h]

end Environment

/-! ## What files say -/

/-- What a file says in its section: nothing if it is not there or is empty, else what the section
of its mapping holds, if it has one. -/
inductive Says (L : Libraries) : File → Layer → Prop
  | absent {path : String} : Says L ⟨path, none⟩ []
  | empty {path text : String} : L.readText text = .ok .null → Says L ⟨path, some text⟩ []
  | mapping {path text : String} {entries fields : Layer} :
      L.readText text = .ok (.map entries) → PlainNames entries →
      IsSection (Value.field? sectionName entries) fields → Says L ⟨path, some text⟩ fields

variable {L : Libraries}

/-- A file that holds nothing but the section. -/
theorem Says.ofSection {path text : String} {fields : Layer}
    (h : L.readText text = .ok (.map [(.str sectionName, .map fields)])) :
    Says L ⟨path, some text⟩ fields := by
  refine .mapping h (fun entry hentry => ?_) ?_
  · rw [List.mem_singleton.1 hentry]
    exact ⟨sectionName, rfl, by decide⟩
  · rw [Value.field?_cons_self]
    exact .some fields

/-- What an explicit file says in its section; it is only asked for when it is there. -/
inductive SaysExplicitly (L : Libraries) : Option File → Layer → Prop
  | none : SaysExplicitly L none []
  | some {path text : String} {fields : Layer} :
      Says L ⟨path, some text⟩ fields → SaysExplicitly L (some ⟨path, some text⟩) fields

theorem Says.readText (hL : L.Documented) {path text : String} {fields : Layer}
    (h : Says L ⟨path, some text⟩ fields) :
    ∃ layer, (Config.readText L path text).result = .ok layer ∧ PlainNames layer ∧
      Gives layer fields := by
  cases h with
  | empty hread =>
    refine ⟨[], ?_, List.forall_mem_nil _, .nil⟩
    rw [Config.readText, hread]
    rfl
  | @mapping _ _ entries fields hread hnames hsection =>
    have htidy := hL.tidy hread
    have hfields : (Value.map fields).Tidy := by
      generalize hvalue : Value.field? sectionName entries = value at hsection
      cases hsection with
      | none => exact .map .nil (List.forall_mem_nil _)
      | some fields => exact htidy.field hvalue
    refine ⟨entries, ?_, hnames, hnames.hasOnlyNames, htidy.distinctNames, hsection,
      hfields.distinctNames, fun field _ hundefined => ?_⟩
    · rw [Config.readText, hread]
      rfl
    · exact (hfields.field hundefined).ne_undefined rfl

theorem Says.readFile (hL : L.Documented) {file : File} {fields : Layer} (h : Says L file fields) :
    ∃ layer, (Config.readFile L file).result = .ok layer ∧ Gives layer fields := by
  obtain ⟨path, _ | text⟩ := file
  · cases h
    exact ⟨[], rfl, .nil⟩
  · obtain ⟨layer, hread, -, hgives⟩ := h.readText hL
    exact ⟨layer, hread, hgives⟩

theorem SaysExplicitly.readHighest (hL : L.Documented) {sources : Sources} {fields : Layer}
    (h : SaysExplicitly L sources.explicit fields) :
    ∃ layer, (Config.readHighest L sources).result = .ok layer ∧ PlainNames layer ∧
      Gives layer fields := by
  unfold Config.readHighest
  generalize sources.explicit = explicit at h
  cases h with
  | none =>
    refine ⟨[], ?_, List.forall_mem_nil _, .nil⟩
    cases sources.project.text <;> rfl
  | some hexplicit =>
    obtain ⟨layer, hread, hplain, hgives⟩ := hexplicit.readText hL
    refine ⟨layer, ?_, hplain, hgives⟩
    unfold readExplicit
    dsimp only
    rw [Loading.bind_of_ok hread, if_pos hgives.onlyNames]
    rfl

end Config
end LiveValue
