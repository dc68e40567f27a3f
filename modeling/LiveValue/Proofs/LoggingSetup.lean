import LiveValue.Log.Setup

/-!
# Logging set up again and again

A host may set logging up as often as it likes, whatever handlers there are. What counts is the last
call that came through: it leaves a single handler, at the level that it asks for.

* `Log.Setup.configure_eq`: what there was before does not count;
* `Log.SetupCall.Asks`: the level that a call asks for, which is just one;
* `Log.SetupCall.Misled`: the calls that do not come through, as a name of the environment leads to
  something that is no level;
* `Log.Setup.afterAll`: what any number of calls come to;
* `logging_set_up_by_last_call`: every call, after any others and before any that fail.
-/

namespace LiveValue.Log

/-- A call: what the environment says, and what the caller says. -/
structure SetupCall where
  vars : Variables
  forceJson : Bool
  level : Option Int

def SetupCall.json (call : SetupCall) : Bool := call.forceJson || Setup.asksForJson call.vars

namespace Setup

/-- One handler, and the root at its level. -/
def single (number : Int) (json : Bool) : Setup := ⟨number, [⟨number, json⟩]⟩

def configureBy (setup : Setup) (call : SetupCall) : Except Failure Setup :=
  setup.configure call.vars call.forceJson call.level

/-- What is set up after a call. One that fails leaves the levels and the handlers as they are. -/
def after (setup : Setup) (call : SetupCall) : Setup :=
  match setup.configureBy call with
  | .ok next => next
  | .error _ => setup

def afterAll (setup : Setup) (calls : List SetupCall) : Setup := calls.foldl after setup

/-- Taken away one after the other, all handlers are gone. -/
theorem foldl_removeHandler (rootLevel : Int) (handlers : List Handler) :
    handlers.foldl removeHandler ⟨rootLevel, handlers⟩ = ⟨rootLevel, []⟩ := by
  induction handlers with
  | nil => rfl
  | cons handler rest ih =>
    rw [List.foldl_cons, removeHandler, List.erase_cons_head]
    exact ih

theorem configure_eq (setup : Setup) (vars : Variables) (forceJson : Bool) (level : Option Int) :
    setup.configure vars forceJson level
      = (chosenLevel vars level).map fun number =>
          single number (forceJson || asksForJson vars) := by
  unfold configure
  cases chosenLevel vars level with
  | error failure => rfl
  | ok number =>
    simp only [Except.map, bind, Except.bind, pure, Except.pure, foldl_removeHandler]
    rfl

end Setup

/-! ## The level of a call -/

/-- Where no key occurs twice, what is found is what there is. -/
theorem lookup_eq_some_iff_mem {α : Type} {table : List (String × α)}
    (h : (table.map Prod.fst).Nodup) {name : String} {a : α} :
    table.lookup name = some a ↔ (name, a) ∈ table := by
  induction table with
  | nil => simp
  | cons entry rest ih =>
    obtain ⟨key, b⟩ := entry
    rw [List.map_cons, List.nodup_cons] at h
    rw [List.lookup_cons, List.mem_cons, Prod.mk.injEq]
    by_cases hkey : name = key
    · have habsent : (name, a) ∉ rest := fun hmem =>
        h.1 (List.mem_map.2 ⟨(name, a), hmem, hkey⟩)
      simp [hkey, hkey ▸ habsent, eq_comm]
    · have hother : (name == key) = false := by simpa using hkey
      simp [hother, hkey, ih h.2]

theorem lookup_eq_none_iff_not_mem {α : Type} {table : List (String × α)}
    (h : (table.map Prod.fst).Nodup) {name : String} :
    table.lookup name = none ↔ ∀ a, (name, a) ∉ table := by
  simp only [Option.eq_none_iff_forall_ne_some, ne_eq, lookup_eq_some_iff_mem h]

namespace SetupCall

open Setup

/-- The level that a call asks for: the one that the caller gives, else the one that the variable
names in capitals or not, and `INFO` if it names none. -/
inductive Asks (call : SetupCall) : Int → Prop
  | given {number : Int} : call.level = some number → Asks call number
  | named {text : String} {number : Int} :
      call.level = none → call.vars.level = some text →
      (inCapitals text, number) ∈ levelNumbers → Asks call number
  | otherwise :
      call.level = none →
      (∀ text number, call.vars.level = some text → (inCapitals text, number) ∉ levelNumbers) →
      Asks call Level.info.number

/-- The caller gives no level, and the variable names something that is no level. -/
def Misled (call : SetupCall) (failure : Failure) : Prop :=
  call.level = none ∧
    ∃ text, call.vars.level = some text ∧ (inCapitals text, failure) ∈ misleadingNames

variable {call : SetupCall} {number : Int} {failure : Failure}

theorem exists_asks (call : SetupCall) : ∃ number, call.Asks number := by
  cases hlevel : call.level with
  | some number => exact ⟨number, .given hlevel⟩
  | none =>
    by_cases hnamed : ∃ text number, call.vars.level = some text ∧
        (inCapitals text, number) ∈ levelNumbers
    · obtain ⟨text, number, htext, hname⟩ := hnamed
      exact ⟨number, .named hlevel htext hname⟩
    · exact ⟨_, .otherwise hlevel fun text number htext hname =>
        hnamed ⟨text, number, htext, hname⟩⟩

/-- What is given counts before the name, and a name stands for one level. -/
theorem Asks.unique (h : call.Asks number) {other : Int} (hother : call.Asks other) :
    other = number := by
  cases h with
  | given hgiven =>
    cases hother with
    | given hgiven' => exact Option.some.inj (hgiven'.symm.trans hgiven)
    | named hnone | otherwise hnone => simp [hgiven] at hnone
  | named hnone htext hname =>
    cases hother with
    | given hgiven => simp [hgiven] at hnone
    | named _ htext' hname' =>
      obtain rfl := Option.some.inj (htext'.symm.trans htext)
      rw [← lookup_eq_some_iff_mem (by decide)] at hname hname'
      exact Option.some.inj (hname'.symm.trans hname)
    | otherwise _ hnothing => exact absurd hname (hnothing _ _ htext)
  | otherwise hnone hnothing =>
    cases hother with
    | given hgiven => simp [hgiven] at hnone
    | named _ htext hname => exact absurd hname (hnothing _ _ htext)
    | otherwise => rfl

theorem chosenLevel_of_misled (h : call.Misled failure) :
    chosenLevel call.vars call.level = .error failure := by
  obtain ⟨hnone, text, htext, hname⟩ := h
  rw [← lookup_eq_some_iff_mem (by decide)] at hname
  simp only [chosenLevel, hnone, levelOfVariables, htext, levelOfName, hname]

/-- Where no name misleads, the level is the one that the call asks for. -/
theorem Asks.chosenLevel_eq (h : call.Asks number)
    (hmisled : ¬∃ failure, call.Misled failure) :
    chosenLevel call.vars call.level = .ok number := by
  have hclear : ∀ {text}, call.level = none → call.vars.level = some text →
      misleadingNames.lookup (inCapitals text) = none := fun hnone htext =>
    (lookup_eq_none_iff_not_mem (by decide)).2 fun failure hname =>
      hmisled ⟨failure, hnone, _, htext, hname⟩
  cases h with
  | given hgiven => simp only [chosenLevel, hgiven]
  | named hnone htext hname =>
    rw [← lookup_eq_some_iff_mem (by decide)] at hname
    simp only [chosenLevel, hnone, levelOfVariables, htext, levelOfName, hclear hnone htext, hname,
      Option.getD_some]
  | otherwise hnone hnothing =>
    cases htext : call.vars.level with
    | none => simp only [chosenLevel, hnone, levelOfVariables, htext]
    | some text =>
      have hname : levelNumbers.lookup (inCapitals text) = none :=
        (lookup_eq_none_iff_not_mem (by decide)).2 fun number => hnothing text number htext
      simp only [chosenLevel, hnone, levelOfVariables, htext, levelOfName, hclear hnone htext,
        hname, Option.getD_none]

end SetupCall

/-! ## Calls after each other -/

namespace Setup

variable {setup : Setup} {call : SetupCall} {number : Int} {failure : Failure}

theorem configureBy_of_asks (h : call.Asks number) (hmisled : ¬∃ failure, call.Misled failure) :
    setup.configureBy call = .ok (single number call.json) := by
  rw [configureBy, configure_eq, h.chosenLevel_eq hmisled]
  rfl

theorem configureBy_of_misled (h : call.Misled failure) :
    setup.configureBy call = .error failure := by
  rw [configureBy, configure_eq, SetupCall.chosenLevel_of_misled h]
  rfl

theorem after_of_asks (h : call.Asks number) (hmisled : ¬∃ failure, call.Misled failure) :
    setup.after call = single number call.json := by
  rw [after, configureBy_of_asks h hmisled]

theorem after_of_misled (h : call.Misled failure) : setup.after call = setup := by
  rw [after, configureBy_of_misled h]

/-- Calls that all fail leave the levels and the handlers as they are. -/
theorem afterAll_of_misled {calls : List SetupCall}
    (h : ∀ call ∈ calls, ∃ failure, call.Misled failure) :
    setup.afterAll calls = setup := by
  induction calls with
  | nil => rfl
  | cons call rest ih =>
    obtain ⟨⟨failure, hfirst⟩, hrest⟩ := List.forall_mem_cons.1 h
    rw [afterAll, List.foldl_cons, after_of_misled hfirst]
    exact ih hrest

theorem afterAll_append_cons (earlier : List SetupCall) (call : SetupCall)
    (later : List SetupCall) :
    setup.afterAll (earlier ++ call :: later)
      = ((setup.afterAll earlier).after call).afterAll later :=
  List.foldl_append

end Setup

open Setup

/-- However often logging is set up, whatever handlers there were: each call asks for one level, and
unless a name of the environment misleads it, it comes through and leaves a single handler at that
level, also after further calls that fail. A misled call fails, and it leaves the levels and the
handlers as they are. -/
theorem logging_set_up_by_last_call (start : Setup) (earlier later : List SetupCall)
    (call : SetupCall) :
    let before := start.afterAll earlier
    ∃ number, call.Asks number ∧ (∀ other, call.Asks other → other = number) ∧
      ((¬∃ failure, call.Misled failure) →
        before.configureBy call = .ok (single number call.json) ∧
        ((∀ other ∈ later, ∃ failure, other.Misled failure) →
          start.afterAll (earlier ++ call :: later) = single number call.json)) ∧
      (∀ failure, call.Misled failure →
        before.configureBy call = .error failure ∧
        start.afterAll (earlier ++ [call]) = before) := by
  intro before
  obtain ⟨number, hasks⟩ := call.exists_asks
  refine ⟨number, hasks, fun other => hasks.unique, fun hmisled => ?_, fun failure hmisled => ?_⟩
  · refine ⟨configureBy_of_asks hasks hmisled, fun hlater => ?_⟩
    rw [afterAll_append_cons, after_of_asks hasks hmisled, afterAll_of_misled hlater]
  · refine ⟨configureBy_of_misled hmisled, ?_⟩
    rw [afterAll_append_cons, after_of_misled hmisled]
    rfl

def namedLevel (text : String) : SetupCall := ⟨⟨some text, none⟩, false, none⟩

/-- The handlers of a host are replaced by one, and two calls that are misled leave it there; one of
the names has a ligature. -/
theorem logging_set_up_by_last_call_debug :
    let start : Setup := ⟨30, [⟨40, false⟩, ⟨0, true⟩, ⟨40, false⟩]⟩
    start.afterAll ([] ++ namedLevel "debug" :: [namedLevel "BASIC_FORMAT", namedLevel "_ﬆyles"])
      = single 10 false := by
  intro start
  obtain ⟨number, -, hunique, hdone, -⟩ := logging_set_up_by_last_call start []
    [namedLevel "BASIC_FORMAT", namedLevel "_ﬆyles"] (namedLevel "debug")
  have hdebug : number = 10 := (hunique 10 (.named rfl rfl (by decide))).symm
  have hclear : ¬∃ failure, (namedLevel "debug").Misled failure := by
    rintro ⟨failure, -, text, htext, hname⟩
    obtain rfl := Option.some.inj htext
    revert hname
    cases failure <;> decide
  have hlater : ∀ other ∈ [namedLevel "BASIC_FORMAT", namedLevel "_ﬆyles"],
      ∃ failure, other.Misled failure := by
    simp only [List.forall_mem_cons]
    exact ⟨⟨.levelName, rfl, _, rfl, by decide⟩, ⟨.levelKind, rfl, _, rfl, by decide⟩,
      List.forall_mem_nil _⟩
  rw [(hdone hclear).2 hlater, hdebug]
  rfl

/-- `BASIC_FORMAT` is no level, so that `INFO` is asked for, and yet the call fails. -/
theorem basic_format_misleads :
    (namedLevel "BASIC_FORMAT").Asks Level.info.number ∧
      Setup.initial.configureBy (namedLevel "BASIC_FORMAT") = .error .levelName := by
  refine ⟨.otherwise rfl fun text number htext => ?_, rfl⟩
  obtain rfl := Option.some.inj htext
  simp [levelNumbers, inCapitals, capitals]

end LiveValue.Log
