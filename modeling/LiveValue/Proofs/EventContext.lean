import LiveValue.ActionEvent
import LiveValue.Proofs.BoundVariables
import LiveValue.Proofs.ChangedContext
import LiveValue.Proofs.Concatenation
import LiveValue.Proofs.FunctionFaults
import LiveValue.Proofs.Layers

/-!
# The context of an event

An event is built by resolving the entries of its definition one after the other, in a block of log
variables. With deterministic functions that do not look at variables this is no more than the
entries resolved each in a run of its own, up to the first fault; and whatever was bound before is
bound afterwards.

* `rebinding`: runs where different variables are bound;
* `OneByOne`: what the single runs of entries come to;
* `ActionEvent.buildUnder`: building an event where variables are bound already;
* `ActionEvent.field?_payload`: what the payload leaves out;
* `event_built_one_by_one`: the event, the invocations, the lines and the variables;
* `event_misled`: functions that look at variables or bind them, and a moment without a timestamp.
-/

namespace LiveValue

/-! ## Keys that are strings -/

namespace Value

def IsString (v : Value) : Prop := ∃ s, v = .str s

theorem insertSorted_of_strings {key : Value} {sorted : List Value} (hkey : key.IsString)
    (h : ∀ k ∈ sorted, k.IsString) :
    ∃ more, insertSorted key sorted = .ok more ∧ ∀ k ∈ more, k.IsString := by
  induction sorted with
  | nil => exact ⟨[key], rfl, by simpa using hkey⟩
  | cons k rest ih =>
    obtain ⟨s, rfl⟩ := hkey
    obtain ⟨⟨t, rfl⟩, hrest⟩ := List.forall_mem_cons.1 h
    obtain ⟨more, hmore, hstrings⟩ := ih hrest
    by_cases hlt : s < t
    · refine ⟨.str s :: .str t :: rest, ?_, ?_⟩
      · simp [insertSorted, before, hlt, bind, Except.bind, pure, Except.pure]
      · simpa using ⟨⟨s, rfl⟩, ⟨t, rfl⟩, hrest⟩
    · refine ⟨.str t :: more, ?_, ?_⟩
      · simp [insertSorted, before, hlt, hmore, bind, Except.bind, pure, Except.pure]
      · simpa using ⟨⟨t, rfl⟩, hstrings⟩

/-- Strings can always be sorted. -/
theorem sortKeys_of_strings {keys : List Value} (h : ∀ key ∈ keys, key.IsString) :
    ∃ sorted, sortKeys keys = .ok sorted := by
  have hsorted : ∀ sorted : List Value, (∀ key ∈ sorted, key.IsString) →
      ∃ more, keys.foldlM (fun sorted key => insertSorted key sorted) sorted = .ok more := by
    induction keys with
    | nil => exact fun sorted _ => ⟨sorted, rfl⟩
    | cons key rest ih =>
      intro sorted hstrings
      obtain ⟨hkey, hrest⟩ := List.forall_mem_cons.1 h
      obtain ⟨next, hnext, hnextStrings⟩ := insertSorted_of_strings hkey hstrings
      obtain ⟨more, hmore⟩ := ih hrest next hnextStrings
      refine ⟨more, ?_⟩
      rw [List.foldlM_cons, hnext]
      exact hmore
  exact hsorted [] (List.forall_mem_nil _)

end Value

/-! ## Other variables -/

namespace Context

/-- The same place, with nothing bound around it. -/
def unbound (ctx : Context) : Context := { ctx with bound := .unbound }

end Context

/-- The invocations of a run, whatever was bound around them. -/
def History.plainInvocations (h : History) : List Invocation :=
  h.invocations.map (Invocation.mapContext Context.unbound)

/-- The contexts differ in nothing but what is bound around them. -/
structure BoundTwin (c c' : Context) : Prop where
  eq : ∃ around, c' = { c with bound := around }
  blind : c.functions.All HostFunction.IgnoresVariables

namespace BoundTwin

variable {c c' : Context}

theorem depth_eq (h : BoundTwin c c') : c'.depth = c.depth := by
  obtain ⟨⟨around, rfl⟩, -⟩ := h
  rfl

theorem limit_eq (h : BoundTwin c c') : c'.limit = c.limit := by
  obtain ⟨⟨around, rfl⟩, -⟩ := h
  rfl

theorem deeper (h : BoundTwin c c') : BoundTwin c.deeper c'.deeper := by
  obtain ⟨⟨around, rfl⟩, hf⟩ := h
  exact ⟨⟨around, rfl⟩, hf⟩

theorem lookup (h : BoundTwin c c') (name : String) {k k' : Option HostFunction → Eval Value}
    (hnone : (Comparison.regardless Context.unbound).Compares (k none) (k' none))
    (hsome : ∀ f : HostFunction, (∀ args, f args c.toView = f args c'.toView) →
      (Comparison.regardless Context.unbound).Compares (k (some f)) (k' (some f))) :
    (Comparison.regardless Context.unbound).Compares (c.lookup name >>= k)
      (c'.lookup name >>= k') := by
  obtain ⟨⟨around, rfl⟩, hf⟩ := h
  refine .lookup (fun _ _ => rfl) rfl hnone fun f hget => hsome f fun args => ?_
  have hblind := Context.of_get?_registry hf Builtin.ignoresVariables hget
  exact (hblind args c.toView around).symm

end BoundTwin

/-- A context belongs to one in which something else is bound. -/
def rebinding : Simulation where
  toCongruence := (Comparison.regardless Context.unbound).congruence
  near := BoundTwin
  admits _ := True
  sim_data path h := by
    obtain ⟨⟨around, rfl⟩, -⟩ := h
    exact .refl rfl _
  sim_missBrace h _ := by
    obtain ⟨⟨around, rfl⟩, -⟩ := h
    exact .refl rfl _
  sim_descend expression _ _ h hk :=
    .descend expression (fun _ _ => rfl) h.depth_eq h.limit_eq fun hlt => hk hlt h.deeper
  sim_lookup name _ _ h hnone hsome :=
    h.lookup name hnone fun f hf => hsome f fun args => ⟨hf args, trivial⟩
  sim_functions h := by
    obtain ⟨⟨around, rfl⟩, -⟩ := h
    exact .functions (fun _ _ => rfl) rfl
  sim_invoked name args h := by
    obtain ⟨⟨around, rfl⟩, -⟩ := h
    exact .emit rfl
  near_placed place h := by
    obtain ⟨⟨around, rfl⟩, hf⟩ := h
    exact ⟨⟨_, rfl⟩, hf⟩
  admits_ask _ _ := trivial
  sim_ask _ h hk := .ask h Comparison.lasting_regardless _ hk
  admits_record _ _ := trivial
  sim_record _ h := .bind (.refl rfl _) h

/-! ## Single runs -/

/-- What an entry resolves to in a run of its own. -/
def Resolver.single (r : Resolver) (entry : Value × Value) : Outcome Value := r.resolve entry.2 0

/-- The invocations of single runs, one after the other. -/
def Resolver.singleInvocations (r : Resolver) (entries : List (Value × Value)) : List Invocation :=
  entries.flatMap fun entry => (r.single entry).history.plainInvocations

/-- What entries come to when each is resolved in a run of its own, with the invocations.

* `all`: every entry resolves, and the results stand under the same keys in the same order;
* `first`: this is the fault of the first entry that has one, and the entries behind it do not
  count. -/
inductive OneByOne (r : Resolver) (entries : List (Value × Value)) :
    Except Fault (List (Value × Value)) → List Invocation → Prop
  | all {resolved : List (Value × Value)} :
      List.Forall₂ (fun entry found => found.1 = entry.1 ∧ (r.single entry).result = .ok found.2)
        entries resolved →
      OneByOne r entries (.ok resolved) (r.singleInvocations entries)
  | first {before after : List (Value × Value)} {entry : Value × Value} {fault : Fault} :
      entries = before ++ entry :: after →
      (∀ earlier ∈ before, ∃ value, (r.single earlier).result = .ok value) →
      (r.single entry).result = .error fault →
      OneByOne r entries (.error fault) (r.singleInvocations (before ++ [entry]))

namespace OneByOne

variable {r : Resolver} {entries : List (Value × Value)}

/-- One more entry in front. -/
theorem cons {key value found : Value} {result : Except Fault (List (Value × Value))}
    {invocations : List Invocation} (h : OneByOne r entries result invocations)
    (hfound : (r.single (key, value)).result = .ok found) :
    OneByOne r ((key, value) :: entries) (result.map fun resolved => (key, found) :: resolved)
      ((r.single (key, value)).history.plainInvocations ++ invocations) := by
  cases h with
  | all hall => exact .all (.cons ⟨rfl, hfound⟩ hall)
  | @first before after entry fault hentries hbefore hfault =>
    subst hentries
    have hearlier : ∀ earlier ∈ (key, value) :: before,
        ∃ value, (r.single earlier).result = .ok value := by
      simpa using ⟨⟨found, hfound⟩, fun k v hmem => hbefore (k, v) hmem⟩
    exact .first rfl hearlier hfault

/-- The entries of the result have the same keys. -/
theorem strings {resolved : List (Value × Value)} {invocations : List Invocation}
    (h : OneByOne r entries (.ok resolved) invocations)
    (hkeys : ∀ entry ∈ entries, entry.1.IsString) :
    ∀ key ∈ resolved.map Prod.fst, key.IsString := by
  cases h with
  | all hall =>
    induction hall with
    | nil => nofun
    | cons hfound _ ih =>
      obtain ⟨hkey, hrest⟩ := List.forall_mem_cons.1 hkeys
      simp only [List.map_cons, List.forall_mem_cons]
      exact ⟨hfound.1 ▸ hkey, ih hrest⟩

end OneByOne

namespace Resolver

variable {r : Resolver}

theorem resolveEntries_cons (key value : Value) (rest : List (Value × Value)) :
    r.resolveEntries ((key, value) :: rest) = (do
      let found ← r.resolve value
      let resolved ← r.resolveEntries rest
      return (key, found) :: resolved) := by
  simp [resolveEntries, List.mapM_cons]

/-- With deterministic functions that ignore variables, a run of its own does what is done at any
time and wherever variables are bound. -/
theorem single_same (hf : r.functions.All HostFunction.Deterministic)
    (hv : r.functions.All HostFunction.IgnoresVariables) (around : LogVariables)
    (entry : Value × Value) (taken : Nat) :
    (r.single entry).SameRegardless Context.unbound ((r.under around).resolve entry.2 taken) := by
  have hsuits : steadiness.Suits r.context := hf
  have hsteady : r.single entry = r.resolve entry.2 taken :=
    Invariant.resolves hsuits entry.2 0 taken
  have twins : rebinding.near r.context (r.under around).context := ⟨⟨around, rfl⟩, hv⟩
  rw [hsteady]
  exact Comparison.sameRegardless (Simulation.resolves twins entry.2 taken)

theorem resolveEntries_one_by_one (hf : r.functions.All HostFunction.Deterministic)
    (hv : r.functions.All HostFunction.IgnoresVariables) (around : LogVariables)
    (entries : List (Value × Value)) (taken : Nat) :
    OneByOne r entries ((r.under around).resolveEntries entries taken).result
      ((r.under around).resolveEntries entries taken).history.plainInvocations := by
  induction entries generalizing taken with
  | nil => exact .all .nil
  | cons entry rest ih =>
    obtain ⟨key, value⟩ := entry
    have hsame := single_same hf hv around (key, value) taken
    have hresult := hsame.result
    have hinvocations := hsame.invocations
    rw [resolveEntries_cons]
    rcases ((r.under around).resolve value).apply_eq taken with
      ⟨fault, history, h⟩ | ⟨found, history, h⟩
    · rw [h] at hresult hinvocations
      rw [Eval.bind_of_error h]
      have hfirst : OneByOne r ((key, value) :: rest) (.error fault)
          (r.singleInvocations ([] ++ [(key, value)])) :=
        .first rfl (List.forall_mem_nil _) hresult.symm
      simpa [singleInvocations, History.plainInvocations, hinvocations] using hfirst
    · rw [h] at hresult hinvocations
      rw [Eval.bind_of_ok h, Eval.map_apply, History.plainInvocations, History.invocations,
        List.filterMap_append, List.map_append]
      have hcons := (ih (taken + history.notes.length)).cons hresult.symm
      rw [History.plainInvocations, ← hinvocations] at hcons
      exact hcons

/-- Functions that never bind a variable leave it free while entries are resolved. -/
theorem leavesFree_resolveEntries {label : String}
    (hf : r.functions.All (HostFunction.LeavesFree label)) (entries : List (Value × Value)) :
    (r.resolveEntries entries).LeavesFree label := by
  have hsuits : (freedom label).Suits r.context := hf
  have hentry (entry : Value × Value) : (freedom label).simulation.sim
      (do return (entry.1, ← r.resolve entry.2)) (do return (entry.1, ← r.resolve entry.2)) :=
    ⟨rfl, .bind (Invariant.resolves hsuits entry.2) fun found => .of_no_lines fun _ => rfl⟩
  exact ((freedom label).simulation.sim_mapM fun entry _ => hentry entry).2

end Resolver

/-! ## Events -/

namespace ActionEvent

/-- The payload holds the entries that have a value, in their order, unless the moment has no
timestamp. -/
theorem field?_payload {event : ActionEvent} (h : event.moment.HasTimestamp) :
    ∃ payload fields, event.payload = .ok (.map payload) ∧
      Value.field? "action" payload = some (.map fields) ∧
      Value.field? "context" fields
        = some (.map (event.context.filter fun entry => !entry.2.isUndefined)) := by
  unfold payload
  cases htimestamp : event.moment.timestamp with
  | error fault => exact absurd h (Moment.timestamp_eq_error htimestamp).2
  | ok timestamp => exact ⟨_, _, rfl, rfl, rfl⟩

/-- Without a timestamp there is no payload. -/
theorem payload_eq_error {event : ActionEvent} (h : ¬event.moment.HasTimestamp) :
    event.payload = .error .outOfRange := by
  have htimestamp : event.moment.timestamp = .error .outOfRange := if_neg h
  unfold payload
  rw [htimestamp]
  rfl

/-- What becomes of a state of a library while a resolver builds the event of an action, when some
notes were taken before: the functions enter and leave blocks. -/
abbrev Meanwhile (B : Log.Binder) : Type := Resolver → Value → Nat → B.State → B.State

/-- All blocks that the functions enter are left again. -/
def Meanwhile.Settles {B : Log.Binder} (meanwhile : Meanwhile B) : Prop :=
  ∀ r action taken b, B.Settles b (meanwhile r action taken b)

/-- The functions enter no blocks. -/
def Meanwhile.nothing {B : Log.Binder} : Meanwhile B := fun _ _ _ b => b

theorem Meanwhile.settles_nothing {B : Log.Binder} : (nothing (B := B)).Settles :=
  fun _ _ _ _ => .refl

/-- Building an event where variables are bound already: what it comes to, and the state
afterwards. -/
def buildUnder {B : Log.Binder} (meanwhile : Meanwhile B) (b : B.State) (r : Resolver)
    (action : Value) (surfaceId sourceComponentId : String) (moment : Moment) (taken : Nat) :
    Outcome (Option ActionEvent) × B.State :=
  (build (r.under (B.bound b)) action surfaceId sourceComponentId moment taken,
    match Definition.ofAction? action with
    | .ok (some _) =>
        let (inside, kept) := B.enter (boundFields surfaceId sourceComponentId) b
        B.leave kept (meanwhile r action taken inside)
    | _ => b)

variable {B : Log.Binder} {b : B.State} {r : Resolver} {surfaceId sourceComponentId : String}
  {moment : Moment} {taken : Nat}

/-- After an event was built the same is bound as before. -/
theorem bound_buildUnder (hB : B.Documented) {meanwhile : Meanwhile B} (hm : meanwhile.Settles)
    (action : Value) :
    B.bound (buildUnder meanwhile b r action surfaceId sourceComponentId moment taken).2
      = B.bound b := by
  unfold buildUnder
  split
  · exact hB.bound_leave (hB.bound_of_settles (hm r action taken _))
  · rfl

/-- The entries are resolved one by one, and the keys of the results can always be sorted for the
log. -/
theorem resolveContext_one_by_one (hf : r.functions.All HostFunction.Deterministic)
    (hv : r.functions.All HostFunction.IgnoresVariables) (around : LogVariables)
    (definition : Definition) (hkeys : ∀ entry ∈ definition.context, entry.1.IsString) :
    OneByOne r definition.context (resolveContext (r.under around) definition taken).result
      (resolveContext (r.under around) definition taken).history.plainInvocations := by
  have hresolved := r.resolveEntries_one_by_one hf hv around definition.context taken
  unfold resolveContext
  rcases ((r.under around).resolveEntries definition.context).apply_eq taken with
    ⟨fault, history, h⟩ | ⟨resolved, history, h⟩
  · rw [Eval.bind_of_error h]
    rwa [h] at hresolved
  · rw [h] at hresolved
    obtain ⟨sorted, hsorted⟩ := Value.sortKeys_of_strings (hresolved.strings hkeys)
    rw [Eval.bind_of_ok h, hsorted]
    show OneByOne r definition.context (.ok resolved)
      (history ++
        [.logged ⟨.actionEventBuilt definition.name sorted, []⟩] : History).plainInvocations
    rw [History.plainInvocations, History.invocations, List.filterMap_append]
    exact (List.append_nil history.invocations).symm ▸ hresolved

theorem leavesFree_resolveContext {label : String}
    (hf : r.functions.All (HostFunction.LeavesFree label)) (definition : Definition) :
    (resolveContext r definition).LeavesFree label := by
  refine .bind (Resolver.leavesFree_resolveEntries hf _) fun context => ?_
  refine .bind (.of_no_lines fun _ => ?_) fun keys =>
    .bind (.log _) fun _ => .of_no_lines fun _ => rfl
  cases Value.sortKeys (context.map Prod.fst) <;> rfl

/-- Where an action defines an event, that event is built in a block of variables. -/
theorem build_of_definition {action : Value} {definition : Definition}
    (h : Definition.ofAction? action = .ok (some definition)) :
    let fresh := boundFields surfaceId sourceComponentId
    build r action surfaceId sourceComponentId moment taken =
      ⟨(resolveContext (r.within fresh) definition taken).result.map fun context =>
          some ⟨definition.name, surfaceId, sourceComponentId, context, moment⟩,
        (resolveContext (r.within fresh) definition taken).history.within [fresh]⟩ := by
  intro fresh
  rw [build, h]
  exact Eval.map_apply (Eval.within [fresh] (resolveContext (r.within fresh) definition)) _ taken

/-- An event keeps the moment at which it fires. -/
theorem moment_of_build {action : Value} {definition : Definition}
    (h : Definition.ofAction? action = .ok (some definition)) {event : ActionEvent}
    (hevent : (build r action surfaceId sourceComponentId moment taken).result
      = .ok (some event)) : event.moment = moment := by
  rw [build_of_definition h] at hevent
  generalize (resolveContext _ definition taken).result = resolved at hevent
  cases resolved with
  | error fault => cases hevent
  | ok resolved =>
    cases hevent
    rfl

/-- Both variables of the block stand before those around it. -/
theorem enter_boundFields {field : String × Value}
    (h : field ∈ boundFields surfaceId sourceComponentId) (around : LogVariables) :
    LogVariables.enter (boundFields surfaceId sourceComponentId) around field.1 = some field.2 := by
  rw [LogVariables.enter]
  simp only [boundFields, List.mem_cons, List.not_mem_nil, or_false] at h
  rcases h with rfl | rfl <;> simp [boundFields, Entries.find?]

/-- A line that is logged while an event is built lies inside the blocks that functions opened and
the one of the event, and says what that one binds unless the others or the line's own event say
something else. -/
theorem tells_of_mem_lines {around : LogVariables} {history : History} {line : Line}
    (h : line ∈ (history.within [boundFields surfaceId sourceComponentId]).lines) :
    ∃ inner, line.blocks = inner ++ [boundFields surfaceId sourceComponentId] ∧
      (⟨line.event, inner⟩ ∈ history.lines) ∧
      ∀ field ∈ boundFields surfaceId sourceComponentId,
        (∀ block ∈ inner, field.1 ∉ block.map Prod.fst) →
        line.tells around field.1
          = (Entries.find? field.1 line.event.fields).or (some field.2) := by
  rw [History.lines_within, List.mem_map] at h
  obtain ⟨own, hown, rfl⟩ := h
  refine ⟨own.blocks, rfl, hown, fun field hfield hfree => ?_⟩
  have hinner := LogVariables.enterAll_of_forall_notMem hfree
    (LogVariables.enter (boundFields surfaceId sourceComponentId) around)
  rw [Line.tells, Line.within, LogVariables.enterAll_append]
  exact congrArg _ (hinner.trans (enter_boundFields hfield around))

end ActionEvent

open ActionEvent in
/-- Building an event, whatever variables are bound, comes to what the entries of its context come
to in single runs: an event that holds the results under the same keys and in the same order, the
undefined ones left out of its payload, or the fault of the first entry that has one. The
invocations are those of the single runs. Every line carries both variables of the event unless its
own event or a block that a function opened around it says something else, and afterwards every
name stands for what it stood for before. This takes deterministic functions that do not look at
variables; and where the moment has no timestamp there is no payload. -/
theorem event_built_one_by_one {B : Log.Binder} (hB : B.Documented) {meanwhile : Meanwhile B}
    (hm : meanwhile.Settles) (b : B.State) {r : Resolver}
    (hf : r.functions.All HostFunction.Deterministic)
    (hv : r.functions.All HostFunction.IgnoresVariables)
    {action event context : List (Value × Value)} {name : Value}
    (hevent : Value.field? "event" action = some (.map event))
    (hname : Value.field? "name" event = some name) (htruthy : name.isTruthy = true)
    (hcontext : Value.field? "context" event = some (.map context))
    (hkeys : ∀ entry ∈ context, entry.1.IsString) (surfaceId sourceComponentId : String)
    (moment : Moment) (taken : Nat) :
    let built := buildUnder meanwhile b r (.map action) surfaceId sourceComponentId moment taken
    let fresh := boundFields surfaceId sourceComponentId
    (∃ result, OneByOne r context result built.1.history.plainInvocations ∧
      built.1.result = result.map fun resolved =>
        some ⟨name, surfaceId, sourceComponentId, resolved, moment⟩) ∧
    (∀ e, built.1.result = .ok (some e) →
      (moment.HasTimestamp → ∃ payload fields, e.payload = .ok (.map payload) ∧
        Value.field? "action" payload = some (.map fields) ∧
        Value.field? "context" fields
          = some (.map (e.context.filter fun entry => !entry.2.isUndefined))) ∧
      (¬moment.HasTimestamp → e.payload = .error .outOfRange)) ∧
    (∀ line ∈ built.1.history.lines, ∃ inner, line.blocks = inner ++ [fresh] ∧
      ∀ field ∈ fresh,
        r.functions.All (HostFunction.LeavesFree field.1) ∨
          (∀ block ∈ inner, field.1 ∉ block.map Prod.fst) →
        line.tells (B.bound b) field.1
          = (Entries.find? field.1 line.event.fields).or (some field.2)) ∧
    B.bound built.2 = B.bound b := by
  have hdefinition : Definition.ofAction? (.map action) = .ok (some ⟨name, context⟩) := by
    simp [Definition.ofAction?, Definition.ofEntries?, hevent, hname, htruthy, hcontext]
  intro built fresh
  have hbuilt : built.1 = _ := build_of_definition hdefinition
  refine ⟨⟨_, ?_, by rw [hbuilt]⟩, fun e he => ?_, fun line hline => ?_,
    bound_buildUnder hB hm (.map action)⟩
  · rw [hbuilt, History.plainInvocations, History.invocations_within]
    exact resolveContext_one_by_one hf hv _ ⟨name, context⟩ hkeys
  · rw [← moment_of_build hdefinition he]
    exact ⟨field?_payload, payload_eq_error⟩
  · rw [hbuilt] at hline
    obtain ⟨inner, hblocks, hown, htells⟩ := tells_of_mem_lines hline
    refine ⟨inner, hblocks, fun field hfield hfree => htells field hfield ?_⟩
    rcases hfree with hfunctions | hfree
    · exact leavesFree_resolveContext (r := (r.under (B.bound b)).within fresh) hfunctions
        ⟨name, context⟩ taken _ hown
    · exact hfree

/-- A resolver with a user in its data, and a function that asks for a template to be expanded. -/
def userResolver : Resolver where
  dataModel := .map [(.str "user", .map [(.str "id", .str "u-1")])]
  scope := .null
  functions := ⟨[("show", Stock.function "show" .format)], List.nodup_singleton "show"⟩
  settings := Settings.standard
  clock := ⟨⟨2026, 1, 25⟩, 12, 0, 0, 0, none⟩

/-- The entries for an event: a path, a path that leads nowhere, and a call. -/
def submitContext : List (Value × Value) :=
  [(.str "id", .map [(.str "path", .str "/user/id")]),
    (.str "gone", .map [(.str "path", .str "/gone")]),
    (.str "shown", .map [(.str "call", .str "show"), (.str "args", .list [.str "it"])])]

def submitAction : List (Value × Value) :=
  [(.str "event", .map [(.str "name", .str "submit"), (.str "context", .map submitContext)])]

/-- An event is built inside a block that binds one of the same names. -/
theorem event_built_one_by_one_nested :
    let b := (Log.Bindings.enter [("surface_id", .str "outer")] .empty).1
    let built := ActionEvent.buildUnder (B := Log.Bindings.binder) .nothing b userResolver
      (.map submitAction) "main" "button" userResolver.clock 0
    built.1.result = .ok (some ⟨.str "submit", "main", "button",
      [(.str "id", .str "u-1"), (.str "gone", .undefined), (.str "shown", .str "it")],
      userResolver.clock⟩) ∧
    (∀ line ∈ built.1.history.lines, line.tells (Log.Bindings.binder.bound b) "surface_id"
      = (Entries.find? "surface_id" line.event.fields).or (some (.str "main"))) ∧
    Log.Bindings.binder.bound built.2 = Log.Bindings.binder.bound b := by
  intro b built
  have hf : userResolver.functions.All HostFunction.Deterministic := by
    intro entry he
    rw [List.mem_singleton.1 he]
    have hrecord : Stock.format ≠ .record := by rintro ⟨⟩
    exact Stock.deterministic "show" hrecord
  have hv : userResolver.functions.All HostFunction.IgnoresVariables := by
    intro entry he
    rw [List.mem_singleton.1 he]
    exact Stock.ignoresVariables "show" .format
  have hfree : userResolver.functions.All (HostFunction.LeavesFree "surface_id") := by
    intro entry he
    rw [List.mem_singleton.1 he]
    exact Stock.leavesFree "surface_id" "show" .format
  have hevent : Value.field? "event" submitAction = some (.map _) := rfl
  have hkeys : ∀ entry ∈ submitContext, entry.1.IsString := by
    simp [submitContext, Value.IsString]
  obtain ⟨-, -, hlines, hsame⟩ := event_built_one_by_one Log.Bindings.documented
    ActionEvent.Meanwhile.settles_nothing b hf hv hevent rfl rfl rfl hkeys "main" "button"
    userResolver.clock 0
  refine ⟨by cbv, fun line hline => ?_, hsame⟩
  obtain ⟨inner, -, htells⟩ := hlines line hline
  exact htells ("surface_id", .str "main") List.mem_cons_self (.inl hfree)

/-- A function that tells which surface the log is about. -/
def surfaceReader : HostFunction := fun _ view => .done ((view.bound "surface_id").getD .null)

def surfaceBinder : HostFunction := fun _ _ =>
  .request ⟨none, [[("surface_id", .str "other")]]⟩ (.evaluate "nope()")

def surfaceResolver : Resolver where
  dataModel := .null
  scope := .null
  functions := ⟨[("read", surfaceReader), ("bind", surfaceBinder)], by decide⟩
  settings := Settings.standard
  clock := ⟨⟨2026, 1, 25⟩, 12, 0, 0, 0, none⟩

def surfaceAction : List (Value × Value) :=
  [(.str "event", .map [(.str "name", .str "submit"), (.str "context", .map [
    (.str "surface", .map [(.str "call", .str "read")]),
    (.str "found", .map [(.str "call", .str "bind")])])])]

/-- A moment whose instant lies before the first year. -/
def earlyMoment : Moment := ⟨⟨1, 1, 1⟩, 0, 0, 0, 0, some ⟨3600000000⟩⟩

/-- The functions are deterministic. Still one of them does not come to what it comes to in a run of
its own, and while the other one runs a line is logged for another surface. And there is an event,
but no payload. -/
theorem event_misled :
    surfaceResolver.functions.All HostFunction.Deterministic ∧
    (ActionEvent.build surfaceResolver (.map surfaceAction) "main" "button" earlyMoment 0).result
      = .ok (some ⟨.str "submit", "main", "button",
        [(.str "surface", .str "main"), (.str "found", .undefined)], earlyMoment⟩) ∧
    (surfaceResolver.single (.str "surface", .map [(.str "call", .str "read")])).result
      = .ok .null ∧
    ((ActionEvent.build surfaceResolver (.map surfaceAction) "main" "button" earlyMoment
      0).history.lines.map fun line => (line.event.name, line.tells .unbound "surface_id",
        Entries.find? "surface_id" line.event.fields))
      = [("unknown_function", some (.str "other"), none),
        ("action_event_built", some (.str "main"), none)] ∧
    ActionEvent.payload ⟨.str "submit", "main", "button",
      [(.str "surface", .str "main"), (.str "found", .undefined)], earlyMoment⟩
      = .error .outOfRange := by
  have hf : surfaceResolver.functions.All HostFunction.Deterministic := by
    refine List.forall_mem_cons.2 ⟨fun _ _ => trivial, List.forall_mem_singleton.2 fun _ _ => ?_⟩
    exact Program.steady_request _ _
  exact ⟨hf, rfl, rfl, by cbv, by cbv⟩

end LiveValue
