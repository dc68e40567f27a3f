import LiveValue.Proofs.StockLibraries

/-!
# How loading ends

Loading gives settings within their bounds or fails, and every failure has its cause in one of the
sources. Most of them are reported as errors of the configuration. Not reported is what the
libraries and the language raise: for a text that cannot be read, for keys that are no keywords, for
options of the call among the keys of the explicit file, and for a variable without JSON.

* `Config.Loading.Ends`: how a part of the loading may end;
* `Config.Accounted`: the causes of failures;
* `loading_ends`: the causes of all failures, and the bounds of settings;
* `load_of_no_json`: the variable that holds no JSON is never reported.
-/

namespace LiveValue

namespace Settings

/-! ## Bounds -/

variable {C : Conversions}

/-- The depth of settings that fields give is the default or was converted. -/
theorem ofEntries_bounds (hC : C.Documented) {fields : List (Value × Value)} {settings : Settings}
    (h : ofEntries C fields = .ok settings) :
    1 ≤ settings.maxDepth ∧ settings.maxDepth ≤ maxDepthCeiling := by
  unfold ofEntries at h
  split at h
  · next maxDepth _ hdepth _ =>
    cases h
    unfold readField at hdepth
    split at hdepth
    · cases hdepth
      exact (by decide : 1 ≤ standard.maxDepth ∧ standard.maxDepth ≤ maxDepthCeiling)
    · next input _ =>
      cases hinput : depth C input with
      | error violation =>
        rw [hinput] at hdepth
        cases hdepth
      | ok depth =>
        rw [hinput] at hdepth
        cases hdepth
        exact hC.bounds hinput
  all_goals cases h

theorem ofSection_bounds (hC : C.Documented) {value? : Option Value} {settings : Settings}
    (h : ofSection C value? = .ok settings) :
    1 ≤ settings.maxDepth ∧ settings.maxDepth ≤ maxDepthCeiling := by
  unfold ofSection at h
  split at h
  · cases h
    decide
  · split at h
    · exact ofEntries_bounds hC h
    · cases h

end Settings

namespace Config

/-! ## Parts of the loading -/

namespace Loading

variable {α β : Type} {m : Loading α} {f : α → Loading β}

theorem bind_of_ok {a : α} (h : m.result = .ok a) : (m >>= f).result = (f a).result := by
  obtain ⟨result, events⟩ := m
  obtain rfl : result = .ok a := h
  rfl

theorem bind_of_error {failure : Failure} (h : m.result = .error failure) :
    (m >>= f).result = .error failure := by
  obtain ⟨result, events⟩ := m
  obtain rfl : result = .error failure := h
  rfl

variable {good : α → Prop} {next : β → Prop} {bad : Failure → Prop}

/-- A part of the loading ends with something good, or else it fails in one of some ways. -/
def Ends (m : Loading α) (good : α → Prop) (bad : Failure → Prop) : Prop :=
  match m.result with
  | .ok a => good a
  | .error failure => bad failure

theorem Ends.pure {a : α} (h : good a) : (Pure.pure a : Loading α).Ends good bad := h

theorem Ends.fail {failure : Failure} (h : bad failure) :
    (Loading.fail failure : Loading α).Ends good bad := h

theorem Ends.log {event : Event} : (Loading.log event).Ends (fun _ => True) bad := trivial

theorem Ends.ofExcept {result : Except Raised α} (hok : ∀ a, result = .ok a → good a)
    (herror : ∀ error, result = .error error → bad (.raised error)) :
    (Loading.ofExcept result).Ends good bad := by
  cases result with
  | ok a => exact hok a rfl
  | error error => exact herror error rfl

theorem Ends.bind (hm : m.Ends good bad)
    (hf : ∀ a, good a → (f a).Ends next bad) : (m >>= f).Ends next bad := by
  obtain ⟨_ | a, events⟩ := m
  · exact hm
  · exact hf a hm

end Loading

/-! ## Causes of failures -/

def Sources.files (sources : Sources) : List File :=
  sources.explicit.toList ++ [sources.project, sources.user]

/-- Some file has this text. -/
def Sources.HasText (sources : Sources) (text : String) : Prop :=
  ∃ file ∈ sources.files, file.text = some text

/-- What a failure has its cause in. All that is reported is an error of the configuration. -/
inductive Accounted (L : Libraries) (sources : Sources) : Failure → Prop
  | reported (message : String) (field : Option String) (value : Value) :
      Accounted L sources (.report (.config message field value))
  /-- A text is not read, and not because it is malformed. -/
  | reading {text : String} {error : Raised} : sources.HasText text →
      L.readText text = .error (.raised error) → Accounted L sources (.raised error)
  /-- A key at the top of a file is no name. -/
  | keyword {text : String} {entries : Layer} : sources.HasText text →
      L.readText text = .ok (.map entries) → hasOnlyNames entries = false →
      Accounted L sources (.raised .keyword)
  /-- The explicit file has keys that are options of the call. -/
  | option {file : File} {text : String} {entries : Layer} {error : Raised} :
      sources.explicit = some file → file.text = some text →
      L.readText text = .ok (.map entries) → ¬PlainNames entries →
      L.takeArguments entries = .error error ∨
        L.readEnvironment entries sources.environment = .error error →
      Accounted L sources (.raised error)
  | notJson : Environment.HoldsNoJson sources.environment →
      Accounted L sources (.raised (.unparsed sectionName))

/-- A layer without entries, or one that was read from a file. -/
def ReadFrom (L : Libraries) (sources : Sources) (layer : Layer) : Prop :=
  layer = [] ∨ ∃ text, sources.HasText text ∧ L.readText text = .ok (.map layer)

/-- Arguments that come from the explicit file, if there is one that is not empty. -/
def Given (L : Libraries) (sources : Sources) (layer : Layer) : Prop :=
  layer = [] ∨ ∃ file text, sources.explicit = some file ∧ file.text = some text ∧
    L.readText text = .ok (.map layer)

variable {L : Libraries} {sources : Sources}

theorem Sources.mem_files_of_explicit {file : File} (h : sources.explicit = some file) :
    file ∈ sources.files :=
  List.mem_append_left _ (Option.mem_toList.2 h)

theorem Given.readFrom {layer : Layer} (h : Given L sources layer) : ReadFrom L sources layer := by
  refine h.imp_right ?_
  rintro ⟨file, text, hfile, htext, hread⟩
  exact ⟨text, ⟨file, Sources.mem_files_of_explicit hfile, htext⟩, hread⟩

/-- Keys that are not names come from a file. -/
theorem ReadFrom.accounted {layer : Layer} (h : ReadFrom L sources layer)
    (hnames : hasOnlyNames layer = false) : Accounted L sources (.raised .keyword) := by
  rcases h with rfl | ⟨text, htext, hread⟩
  · cases hnames
  · exact .keyword htext hread hnames

/-- What the call or the environment raises without a variable for it comes from options. -/
theorem Given.accounted {given : Layer} {error : Raised} (h : Given L sources given)
    (hplain : ¬PlainNames given)
    (herror : L.takeArguments given = .error error ∨
      L.readEnvironment given sources.environment = .error error) :
    Accounted L sources (.raised error) := by
  rcases h with rfl | ⟨file, text, hfile, htext, hread⟩
  · exact absurd (List.forall_mem_nil _) hplain
  · exact .option hfile htext hread hplain herror

theorem readText_ends {path text : String} (h : sources.HasText text) :
    (readText L path text).Ends
      (fun layer => layer = [] ∨ L.readText text = .ok (.map layer)) (Accounted L sources) := by
  unfold readText
  split
  · exact .fail (.reported _ _ _)
  · next hread => exact .fail (.reading h hread)
  · exact .bind .log fun _ _ => .pure (.inl rfl)
  · next entries hread => exact .pure (.inr hread)
  · exact .fail (.reported _ _ _)

theorem Loading.Ends.mono {α : Type} {m : Loading α} {good better : α → Prop}
    {bad : Failure → Prop} (h : m.Ends good bad) (hgood : ∀ a, good a → better a) :
    m.Ends better bad := by
  obtain ⟨_ | a, events⟩ := m
  · exact h
  · exact hgood a h

theorem readFile_ends {file : File} (h : file ∈ sources.files) :
    (readFile L file).Ends (ReadFrom L sources) (Accounted L sources) := by
  unfold readFile
  split
  · next text htext =>
    have htext' : sources.HasText text := ⟨file, h, htext⟩
    exact (readText_ends htext').mono fun layer hlayer =>
      hlayer.imp_right fun hread => ⟨text, htext', hread⟩
  · exact .pure (.inl rfl)

theorem readExplicit_ends {file : File} (h : sources.explicit = some file) :
    (readExplicit L file).Ends (Given L sources) (Accounted L sources) := by
  unfold readExplicit
  split
  · exact .fail (.reported _ _ _)
  · next text htext =>
    have hfile : sources.HasText text := ⟨file, Sources.mem_files_of_explicit h, htext⟩
    refine .bind (readText_ends hfile) fun layer hlayer => ?_
    have hgiven : Given L sources layer :=
      hlayer.imp_right fun hread => ⟨file, text, h, htext, hread⟩
    split
    · exact .pure hgiven
    · next hnames =>
      exact .fail (hgiven.readFrom.accounted (Bool.eq_false_of_not_eq_true hnames))

theorem readHighest_ends :
    (readHighest L sources).Ends (Given L sources) (Accounted L sources) := by
  unfold readHighest
  split
  · next file hfile => exact readExplicit_ends hfile
  · have hpure : (pure [] : Loading Layer).Ends (Given L sources) (Accounted L sources) :=
      .pure (.inl rfl)
    dsimp only
    split
    · exact .bind .log fun _ _ => hpure
    · exact hpure

/-! ## The whole loading -/

section

variable (hL : L.Documented)
include hL

/-- Keys that are no names come from the files. -/
theorem accounted_of_combined {given explicit project user environment : Layer}
    (hgiven : Given L sources given) (hexplicit : L.takeArguments given = .ok explicit)
    (hproject : ReadFrom L sources project) (huser : ReadFrom L sources user)
    (henvironment : L.readEnvironment given sources.environment = .ok environment)
    (hnames : hasOnlyNames (L.combine [explicit, environment, project, user]) = false) :
    Accounted L sources (.raised .keyword) := by
  by_contra hcause
  have honly {layer : Layer} (h : ReadFrom L sources layer) :
      ∀ entry ∈ layer, ∃ name, entry.1 = .str name := by
    refine hasOnlyNames_iff.1 (Bool.eq_true_of_not_eq_false fun hfalse => ?_)
    exact hcause (h.accounted hfalse)
  refine Bool.eq_false_iff.1 hnames (hasOnlyNames_iff.2 fun entry hentry => ?_)
  obtain ⟨layer, hlayer, hkey⟩ := hL.mem_combined entry hentry
  obtain ⟨written, hwritten, hsame⟩ := List.mem_map.1 hkey
  rw [← hsame]
  simp only [List.mem_cons, List.not_mem_nil, or_false] at hlayer
  rcases hlayer with rfl | rfl | rfl | rfl
  · exact honly hgiven.readFrom written (hL.mem_taken hexplicit written hwritten)
  · exact hasOnlyNames_iff.1 (hL.onlyNames henvironment) written hwritten
  · exact honly hproject written hwritten
  · exact honly huser written hwritten

theorem settingsOf_ends {entries : Layer}
    (hnames : hasOnlyNames entries = false → Accounted L sources (.raised .keyword)) :
    (settingsOf L entries).Ends
      (fun settings => 1 ≤ settings.maxDepth ∧ settings.maxDepth ≤ Settings.maxDepthCeiling)
      (Accounted L sources) := by
  unfold settingsOf
  cases honly : hasOnlyNames entries with
  | false =>
    rw [hL.keyword honly]
    exact .fail (hnames honly)
  | true =>
    rw [hL.constructed honly]
    cases hsection : Settings.ofSection L.conversions (Value.field? sectionName entries) with
    | ok settings => exact .pure (Settings.ofSection_bounds hL.conversions hsection)
    | error violations => exact .fail (.reported _ _ _)

/-- Loading gives settings within their bounds, or it fails with a cause. -/
theorem loading_ends (sources : Sources) :
    (load L sources).Ends
      (fun settings => 1 ≤ settings.maxDepth ∧ settings.maxDepth ≤ Settings.maxDepthCeiling)
      (Accounted L sources) := by
  refine .bind readHighest_ends fun given hgiven => ?_
  have htaken : (Loading.ofExcept (L.takeArguments given)).Ends
      (fun explicit => L.takeArguments given = .ok explicit) (Accounted L sources) := by
    refine .ofExcept (fun _ => id) fun error herror => ?_
    refine hgiven.accounted (fun hplain => ?_) (.inl herror)
    rw [hL.taken hplain] at herror
    cases herror
  refine .bind htaken fun explicit hexplicit => ?_
  refine .bind (readFile_ends (by simp [Sources.files])) fun project hproject => ?_
  refine .bind (readFile_ends (by simp [Sources.files])) fun user huser => ?_
  have hvariables : (Loading.ofExcept (L.readEnvironment given sources.environment)).Ends
      (fun environment => L.readEnvironment given sources.environment = .ok environment)
      (Accounted L sources) := by
    refine .ofExcept (fun _ => id) fun error herror => ?_
    by_cases hplain : PlainNames given
    · obtain ⟨hjson, rfl⟩ := (hL.unparsed hplain).1 herror
      exact .notJson hjson
    · exact hgiven.accounted hplain (.inr herror)
  refine .bind hvariables fun environment henvironment => ?_
  exact settingsOf_ends hL
    (accounted_of_combined hL hgiven hexplicit hproject huser henvironment)

/-- A variable that holds no JSON stops the loading, whatever is read from the files, and it is not
reported. -/
theorem load_of_no_json {given project user : Layer}
    (hgiven : (readHighest L sources).result = .ok given) (hplain : PlainNames given)
    (hproject : (readFile L sources.project).result = .ok project)
    (huser : (readFile L sources.user).result = .ok user)
    (hjson : Environment.HoldsNoJson sources.environment) :
    (load L sources).result = .error (.raised (.unparsed sectionName)) := by
  have hexplicit : (Loading.ofExcept (L.takeArguments given)).result = .ok given := by
    rw [hL.taken hplain]
    rfl
  have henvironment : (Loading.ofExcept (L.readEnvironment given sources.environment)).result
      = .error (.raised (.unparsed sectionName)) := by
    rw [(hL.unparsed hplain).2 ⟨hjson, rfl⟩]
    rfl
  unfold load
  rw [Loading.bind_of_ok hgiven, Loading.bind_of_ok hexplicit, Loading.bind_of_ok hproject,
    Loading.bind_of_ok huser, Loading.bind_of_error henvironment]

end

def openBrace : Sources where
  explicit := none
  environment := [("BINDERY_ENGINE", "\x7b")]
  project := ⟨"bindery.yaml", none⟩
  user := ⟨"config.yaml", none⟩

theorem load_openBrace :
    (load .stock openBrace).result = .error (.raised (.unparsed "engine")) := by
  have hjson : Environment.HoldsNoJson openBrace.environment := ⟨"\x7b", by decide, by cbv⟩
  exact load_of_no_json Libraries.documented_stock rfl (List.forall_mem_nil _) rfl rfl hjson

/-- The failure has its cause in the variable. -/
theorem loading_ends_open_brace :
    Libraries.stock.Documented ∧ Accounted .stock openBrace (.raised (.unparsed "engine")) := by
  have hends := loading_ends Libraries.documented_stock openBrace
  rw [Loading.Ends, load_openBrace] at hends
  exact ⟨Libraries.documented_stock, hends⟩

theorem open_brace_not_reported :
    (load .stock openBrace).result = .error (.raised (.unparsed "engine")) ∧
      ∀ report, (load .stock openBrace).result ≠ .error (.report report) := by
  refine ⟨load_openBrace, fun report => ?_⟩
  rw [load_openBrace]
  nofun

end Config
end LiveValue
