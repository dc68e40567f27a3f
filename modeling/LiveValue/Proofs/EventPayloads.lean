import LiveValue.Proofs.JsonValues

/-!
# The payload of an event

An event takes the undefined values out of its context before it is sent, but only those that stand
there by themselves. Where action, data model and scope are JSON and the host functions return JSON
or lists of their arguments, the payload is JSON as well, save for gaps in lists; and there are none
if no function that may return a list was passed an undefined argument.

* `History.LeavesGap`: where a gap comes from;
* `jsonPromise`: what each procedure of the engine gives in such a place;
* `jsonPromise_kept`: its course gives it;
* `event_payload_json`: the payload of an event.
-/

namespace LiveValue

open Template

/-- A function that does not always return JSON got an undefined argument. -/
def Invocation.LeavesGap (functions : Table HostFunction) (i : Invocation) : Prop :=
  .undefined ∈ i.args ∧
    ∃ f, (Registry.mk functions Builtin.table).get? i.name = some f ∧ ¬f.ReturnsJson

/-- One of the invocations leaves a gap. -/
def History.LeavesGap (functions : Table HostFunction) (history : History) : Prop :=
  ∃ i ∈ history.invocations, i.LeavesGap functions

/-- Where all functions return JSON, no invocation leaves a gap. -/
theorem History.not_leavesGap {functions : Table HostFunction}
    (h : functions.All HostFunction.ReturnsJson) (history : History) :
    ¬history.LeavesGap functions := by
  rintro ⟨i, -, -, f, hget, hjson⟩
  unfold Registry.get? at hget
  split at hget
  · next found =>
    cases hget
    exact hjson (h.of_get? found)
  · exact hjson (Builtin.returnsJson.of_get? hget)

/-- The data and the scope are JSON, and the given functions are these. -/
structure Context.HoldsJson (functions : Table HostFunction) (ctx : Context) : Prop where
  dataModel : ctx.dataModel.IsJson
  scope : ctx.scope.IsJson
  functions_eq : ctx.functions = functions

theorem Context.HoldsJson.deeper {functions : Table HostFunction} {ctx : Context}
    (h : ctx.HoldsJson functions) : ctx.deeper.HoldsJson functions :=
  ⟨h.dataModel, h.scope, h.functions_eq⟩

/-- What the procedures of the engine are relied on for where everything is JSON: templates are
expanded to strings anyway, everything else comes to JSON or to nothing, with gaps only if an
invocation on the way leaves one. -/
def jsonPromise (functions : Table HostFunction) (gaps : Prop) : Promise where
  expects ctx
    | .resolve value | .resolveMapping value => ctx.HoldsJson functions ∧ value.IsJson
    | .call c => ctx.HoldsJson functions ∧ ∀ arg ∈ c.args, arg.IsJson
    | .evaluate _ | .argument _ => ctx.HoldsJson functions
    | .format _ | .expand .. | .findFunction _ | .listFunctions => True
  gives
    | .format _, found | .expand .., found => found.IsString
    | .findFunction _, found | .listFunctions, found => found.IsJson
    | .resolveMapping value, found => ∃ entries resolved, value = .map entries ∧
        found = .map resolved ∧ resolved.map Prod.fst = entries.map Prod.fst ∧
        ∀ entry ∈ resolved, entry.2.IsAnswer gaps
    | _, found => found.IsAnswer gaps
  allows o := ∀ i, o.invocation? = some i → i.LeavesGap functions → gaps
  allows_of_within h i hi := h i ((Occurrence.invocation?_within ..).trans hi)

/-! ## The courses -/

/-- The course comes to an answer as long as the promise is kept. -/
abbrev Course.GivesAnswer (functions : Table HostFunction) (gaps : Prop) (course : Course) : Prop :=
  course.Gives (jsonPromise functions gaps) fun found => found.IsAnswer gaps

namespace Course

variable {functions : Table HostFunction} {gaps : Prop} {ctx : Context}

/-- Tasks that come to answers are collected to answers. -/
theorem answers_of_gives {α : Type} {task : α → Task} {inputs : List α} {values : List Value}
    (h : List.Forall₂ (jsonPromise functions gaps).gives (inputs.map task) values)
    (hanswer : ∀ input found,
      (jsonPromise functions gaps).gives (task input) found → found.IsAnswer gaps) :
    ∀ found ∈ values, found.IsAnswer gaps := by
  rw [List.forall₂_map_left_iff] at h
  induction h with
  | nil => exact List.forall_mem_nil _
  | cons hfirst _ ih => exact List.forall_mem_cons.2 ⟨hanswer _ _ hfirst, ih⟩

theorem gives_path (hctx : ctx.HoldsJson functions) (path : String) :
    (ofExcept (Path.resolve ctx.dataModel ctx.scope path)).GivesAnswer functions gaps := by
  refine gives_ofExcept fun found h => ?_
  exact Path.resolve_isAnswer (hctx.dataModel.mono False.elim) (hctx.scope.mono False.elim) h

theorem gives_literal (text : String) :
    (ofExcept (Argument.literalValue text)).GivesAnswer functions gaps :=
  gives_ofExcept fun _ h => Argument.literalValue_isAnswer h

/-- A function that is passed answers comes to an answer. -/
theorem gives_invoke (hbuilds : functions.All HostFunction.Builds) (hctx : ctx.HoldsJson functions)
    {name : String} {f : HostFunction} (hget : ctx.registry.get? name = some f) {args : List Value}
    (hargs : ∀ arg ∈ args, arg.IsAnswer gaps) :
    (invoke ctx name f args).GivesAnswer functions gaps := by
  obtain ⟨-, -, rfl⟩ := hctx
  intro hallowed
  have hgap : Invocation.LeavesGap ctx.functions ⟨name, args, ctx⟩ → gaps := hallowed _ rfl
  have hanswers : ∀ place request value,
      ((jsonPromise ctx.functions gaps).expects (ctx.placed place) (taskOf request) →
        (jsonPromise ctx.functions gaps).gives (taskOf request) value) →
      request.MayGet value := by
    intro place request value hvalue
    cases request with
    | format template => exact hvalue trivial
    | resolve descriptor => trivial
    | evaluate expression => trivial
    | lookup name => exact hvalue trivial
    | functions => exact hvalue trivial
  refine gives_ofProgram hanswers ?_
  by_cases hjson : f.ReturnsJson
  · exact (hjson args ctx.toView).mono fun v hv => .inr (hv.mono False.elim)
  · have hbuiltin : Builtin.table.All HostFunction.Builds := fun entry he =>
      (Builtin.returnsJson entry he).builds
    have hbuild : f.Builds := Context.of_get?_registry hbuilds hbuiltin hget
    exact (hbuild args ctx.toView).mono fun v hv =>
      hv.isAnswer hargs fun hmem => hgap ⟨hmem, f, hget, hjson⟩

end Course

namespace Task

open Course

variable {functions : Table HostFunction} {gaps : Prop} {ctx : Context}

theorem gives_resolve (hctx : ctx.HoldsJson functions) {value : Value} (hvalue : value.IsJson) :
    ((resolve value).course ctx).GivesAnswer functions gaps := by
  rw [course]
  cases hof : Descriptor.ofValue value with
  | literal content =>
    obtain rfl := Descriptor.ofValue_eq_literal hof
    exact .inr (hvalue.mono False.elim)
  | binding path => exact gives_path hctx path
  | call c => exact fun found hfound => hfound ⟨hctx, Descriptor.isJson_args hvalue hof⟩

theorem gives_call (hbuilds : functions.All HostFunction.Builds) (hctx : ctx.HoldsJson functions)
    {c : Call} (hargs : ∀ arg ∈ c.args, arg.IsJson) :
    ((call c).course ctx).GivesAnswer functions gaps := by
  rw [course]
  refine gives_descend (gives_lookup (.inl rfl) fun f hget => ?_)
  refine gives_collect (fun task htask => ?_) fun values hvalues => ?_
  · obtain ⟨arg, harg, rfl⟩ := List.mem_map.1 htask
    exact ⟨hctx.deeper, hargs arg harg⟩
  · exact gives_invoke hbuilds hctx.deeper hget (answers_of_gives hvalues fun _ _ h => h)

theorem gives_evaluate (hbuilds : functions.All HostFunction.Builds)
    (hctx : ctx.HoldsJson functions) (text : String) :
    ((evaluate text).course ctx).GivesAnswer functions gaps := by
  rw [course]
  refine gives_descend ?_
  cases Expression.read text.toList with
  | empty => exact .inr (.str "")
  | absolute path => exact gives_path hctx.deeper path
  | relative path => exact gives_path hctx.deeper path
  | call source name args =>
    refine gives_collect (fun task htask => ?_) fun values hvalues => ?_
    · obtain ⟨arg, -, rfl⟩ := List.mem_map.1 htask
      exact hctx.deeper
    · refine gives_lookup (.inl rfl) fun f hget => ?_
      exact gives_invoke hbuilds hctx.deeper hget (answers_of_gives hvalues fun _ _ h => h)

theorem gives_argument (hctx : ctx.HoldsJson functions) (raw : String) :
    ((argument raw).course ctx).GivesAnswer functions gaps := by
  rw [course]
  cases Argument.read raw with
  | placeholder body => exact fun found hfound => hfound hctx
  | reference text =>
    intro found hfound
    dsimp only
    split
    · exact gives_literal text
    · exact hfound hctx
  | literal text => exact gives_literal text

/-- A template is expanded to a string, whatever its placeholders come to. -/
theorem gives_expand (template : String) (position : Nat) (rest shown : List Char) :
    ((expand template position rest shown).course ctx).Gives (jsonPromise functions gaps)
      Value.IsString := by
  fun_cases Token.tokenize rest with
  | case1 => exact ⟨_, rfl⟩
  | case2 rest => exact fun found hfound => hfound trivial
  | case3 rest =>
    have hshow : (showPlaceholder ctx template position rest shown).Gives
        (jsonPromise functions gaps) Value.IsString :=
      fun value _ => gives_withText fun s found hfound => hfound trivial
    rw [course_placeholder]
    split
    · exact hshow
    · exact gives_missBrace hshow
  | case4 c rest hopening hplaceholder =>
    rw [course]
    · exact fun found hfound => hfound trivial
    · exact hopening
    · exact hplaceholder

theorem gives_resolveMapping (hctx : ctx.HoldsJson functions) {value : Value}
    (hvalue : value.IsJson) :
    ((resolveMapping value).course ctx).Gives (jsonPromise functions gaps)
      ((jsonPromise functions gaps).gives (resolveMapping value)) := by
  cases hvalue with
  | @map entries hkeys hdistinct hvalues =>
    rw [course]
    refine gives_collect (fun task htask => ?_) fun values hgiven => ?_
    · obtain ⟨entry, hentry, rfl⟩ := List.mem_map.1 htask
      exact ⟨hctx, hvalues entry hentry⟩
    · have hlength : entries.length = values.length := by
        rw [← hgiven.length_eq, List.length_map]
      have hanswers := answers_of_gives hgiven fun _ _ h => h
      refine ⟨entries, _, rfl, rfl, List.map_fst_zip ?_, fun entry hentry => ?_⟩
      · rw [List.length_map, hlength]
      · exact hanswers _ (List.of_mem_zip hentry).2
  | _ => trivial

theorem gives_findFunction (name : String) :
    ((findFunction name).course ctx).Gives (jsonPromise functions gaps) Value.IsJson := by
  intro _
  cases ctx.registry.get? name with
  | none => exact fun _ => .bool false
  | some f => exact .bool true

/-- Each function is named once. -/
theorem gives_listFunctions :
    (listFunctions.course ctx).Gives (jsonPromise functions gaps) Value.IsJson := by
  intro _
  have hnames : ctx.registry.names.map (Prod.fst ∘ fun name =>
      (name, Value.bool (ctx.functions.contains name))) = ctx.registry.names := List.map_id _
  have hfields : (Value.ofFields (ctx.registry.names.map fun name =>
      (name, .bool (ctx.functions.contains name)))).IsJson := by
    refine Value.jsonLike_ofFields ?_ (List.forall_mem_map.2 fun name _ => .bool _)
    rw [List.map_map, hnames]
    exact ctx.registry.nodup_names
  rw [Value.ofFields, List.map_map] at hfields
  exact hfields

end Task

/-- Every procedure that is started where everything is JSON comes to what it promises. -/
theorem jsonPromise_kept {functions : Table HostFunction}
    (hbuilds : functions.All HostFunction.Builds) (gaps : Prop) :
    (jsonPromise functions gaps).Kept := by
  intro ctx task hexpected
  cases task with
  | resolve value => exact Task.gives_resolve hexpected.1 hexpected.2
  | call c => exact Task.gives_call hbuilds hexpected.1 hexpected.2
  | evaluate text => exact Task.gives_evaluate hbuilds hexpected text
  | argument raw => exact Task.gives_argument hexpected raw
  | format template => exact fun found hfound => hfound trivial
  | expand template position rest shown => exact Task.gives_expand template position rest shown
  | resolveMapping value => exact Task.gives_resolveMapping hexpected.1 hexpected.2
  | findFunction name => exact Task.gives_findFunction name
  | listFunctions => exact Task.gives_listFunctions

/-! ## Events -/

/-- The data and the scope of the resolver are JSON, and its functions return JSON or what they
build from their arguments. -/
structure Resolver.HoldsJson (r : Resolver) : Prop where
  dataModel : r.dataModel.IsJson
  scope : r.scope.IsJson
  functions : r.functions.All HostFunction.Builds

theorem Resolver.HoldsJson.context {r : Resolver} (h : r.HoldsJson) :
    r.context.HoldsJson r.functions :=
  ⟨h.dataModel, h.scope, rfl⟩

theorem Resolver.HoldsJson.within {r : Resolver} (h : r.HoldsJson) (fresh : Fields) :
    (r.within fresh).HoldsJson :=
  ⟨h.dataModel, h.scope, h.functions⟩

namespace Value

variable {gaps : Prop}

theorem HasUndefined.field {v : Value} (h : v.HasUndefined) {name : String}
    {fields : List (String × Value)} (hmem : (name, v) ∈ fields) :
    (ofFields fields).HasUndefined :=
  .value (List.mem_map_of_mem hmem) h

/-- Answers under the keys of a JSON mapping are JSON once the undefined ones are left out. -/
theorem jsonLike_of_answers {entries resolved : List (Value × Value)}
    (hjson : (Value.map entries).IsJson)
    (hkeys : resolved.map Prod.fst = entries.map Prod.fst)
    (hanswers : ∀ entry ∈ resolved, entry.2.IsAnswer gaps) :
    (Value.map (resolved.filter fun entry => !entry.2.isUndefined)).JsonLike gaps := by
  cases hjson with
  | map hstrings hdistinct _ =>
    rw [← hkeys] at hdistinct
    refine .map (fun entry hentry => ?_) ?_ fun entry hentry => ?_
    · have hkey : entry.1 ∈ entries.map Prod.fst := by
        rw [← hkeys]
        exact List.mem_map_of_mem (List.mem_filter.1 hentry).1
      obtain ⟨written, hwritten, hsame⟩ := List.mem_map.1 hkey
      rw [← hsame]
      exact hstrings written hwritten
    · exact hdistinct.sublist (List.filter_sublist.map _)
    · obtain ⟨hmem, hdefined⟩ := List.mem_filter.1 hentry
      refine (hanswers entry hmem).resolve_left fun hundefined => ?_
      rw [hundefined] at hdefined
      cases hdefined

end Value

namespace ActionEvent

/-- What a JSON action says about its event is JSON. -/
theorem Definition.isJson_of_ofAction? {action : Value} {definition : Definition}
    (hjson : action.IsJson) (h : ofAction? action = .ok (some definition)) :
    definition.name.IsJson ∧ (Value.map definition.context).IsJson := by
  unfold ofAction? at h
  split at h
  · next entries =>
    split at h
    · next event hevent =>
      have heventJson : (Value.map event).IsJson := hjson.field hevent
      unfold ofEntries? at h
      split at h
      · next name hname =>
        split at h
        · cases h
          refine ⟨heventJson.field hname, ?_⟩
          dsimp only
          split
          · next context hcontext => exact heventJson.field hcontext
          · exact .map (List.forall_mem_nil _) List.nodup_nil (List.forall_mem_nil _)
        · cases h
      · cases h
    · cases h
  · split at h <;> cases h

/-- The entries of an event's context are answers under the keys of the definition. -/
theorem answers_of_resolveEntries {r : Resolver} (hr : r.HoldsJson)
    {entries resolved : List (Value × Value)} (hjson : (Value.map entries).IsJson) {taken : Nat}
    {history : History} (h : r.resolveEntries entries taken = ⟨.ok resolved, history⟩) :
    resolved.map Prod.fst = entries.map Prod.fst ∧
      ∀ entry ∈ resolved, entry.2.IsAnswer (history.LeavesGap r.functions) := by
  have hrun : (Task.resolveMapping (.map entries)).perform r.context taken
      = ⟨.ok (.map resolved), history⟩ := by
    rw [Task.perform_resolveMapping]
    show (r.resolveEntries entries >>= fun found => pure (Value.map found)) taken = _
    rw [Eval.map_apply, h]
    rfl
  have hkept := jsonPromise_kept hr.functions (history.LeavesGap r.functions)
  have hallowed : ∀ o ∈ ((Task.resolveMapping (.map entries)).perform r.context taken).history,
      (jsonPromise r.functions (history.LeavesGap r.functions)).allows o := by
    intro o ho i hi hgap
    rw [hrun] at ho
    exact ⟨i, List.mem_filterMap.2 ⟨o, ho, hi⟩, hgap⟩
  have hexpected : (jsonPromise r.functions (history.LeavesGap r.functions)).expects r.context
      (.resolveMapping (.map entries)) := ⟨hr.context, hjson⟩
  obtain ⟨_, _, hentries, hfound, hkeys, hanswers⟩ :=
    hkept.perform hexpected hallowed (congrArg Outcome.result hrun)
  cases hentries
  cases hfound
  exact ⟨hkeys, hanswers⟩

/-- A context that was resolved is that of the entries, and the log adds no invocations. -/
theorem resolveEntries_of_resolveContext {r : Resolver} {definition : Definition} {taken : Nat}
    {context : List (Value × Value)} {history : History}
    (h : resolveContext r definition taken = ⟨.ok context, history⟩) :
    ∃ first later, r.resolveEntries definition.context taken = ⟨.ok context, first⟩ ∧
      history = first ++ later := by
  obtain ⟨resolved, first, later, hresolved, hlater, rfl⟩ := Eval.of_bind_eq_ok h
  obtain ⟨keys, _, _, -, hlogged, -⟩ := Eval.of_bind_eq_ok hlater
  obtain ⟨_, _, _, -, hpure, -⟩ := Eval.of_bind_eq_ok hlogged
  cases hpure
  exact ⟨first, later, hresolved, rfl⟩

/-- An event that was built is that of a definition, the values of which were resolved in a block of
variables. -/
theorem of_build {r : Resolver} {action : Value} {surfaceId sourceComponentId : String}
    {moment : Moment} {taken : Nat} {e : ActionEvent} {history : History}
    (h : build r action surfaceId sourceComponentId moment taken = ⟨.ok (some e), history⟩) :
    ∃ definition, Definition.ofAction? action = .ok (some definition) ∧
      ∃ context inner,
        resolveContext (r.within (boundFields surfaceId sourceComponentId)) definition taken
          = ⟨.ok context, inner⟩ ∧
        inner.invocations = history.invocations ∧
        e = ⟨definition.name, surfaceId, sourceComponentId, context, moment⟩ := by
  cases hof : Definition.ofAction? action with
  | error fault =>
    rw [build, hof] at h
    cases h
  | ok definition? =>
    cases definition? with
    | none =>
      rw [build, hof] at h
      cases h
    | some definition =>
      rw [build_of_definition hof] at h
      rcases (resolveContext (r.within (boundFields surfaceId sourceComponentId))
        definition).apply_eq taken with ⟨fault, inner, hcontext⟩ | ⟨context, inner, hcontext⟩
      · rw [hcontext] at h
        cases h
      · rw [hcontext] at h
        cases h
        exact ⟨definition, rfl, context, inner, hcontext,
          (History.invocations_within ..).symm, rfl⟩

end ActionEvent

open ActionEvent in
/-- **The payload of an event is JSON, save for gaps in lists.** An event that is built for a JSON
action from JSON data, with functions that return JSON or what they build from their arguments, has
a payload that is JSON with gaps at most. A gap comes from a function that does not always return
JSON and got an undefined argument. If no such function was invoked, and in particular if all
functions return JSON, the payload is JSON and holds no undefined value at any depth. -/
theorem event_payload_json {r : Resolver} (hr : r.HoldsJson) {action : Value}
    (haction : action.IsJson) {surfaceId sourceComponentId : String} {moment : Moment} {taken : Nat}
    {e : ActionEvent} {history : History}
    (hbuilt : build r action surfaceId sourceComponentId moment taken = ⟨.ok (some e), history⟩)
    {timestamp : String} (htimestamp : moment.timestamp = .ok timestamp) :
    ∃ payload, e.payload = .ok payload ∧
      payload.JsonLike (history.LeavesGap r.functions) ∧
      (¬history.LeavesGap r.functions → payload.IsJson ∧ ¬payload.HasUndefined) ∧
      (r.functions.All HostFunction.ReturnsJson → payload.IsJson ∧ ¬payload.HasUndefined) := by
  obtain ⟨definition, hof, context, inner, hcontext, hinner, rfl⟩ := of_build hbuilt
  obtain ⟨hname, hjson⟩ := Definition.isJson_of_ofAction? haction hof
  obtain ⟨first, later, hresolved, rfl⟩ := resolveEntries_of_resolveContext hcontext
  obtain ⟨hkeys, hanswers⟩ := answers_of_resolveEntries (hr.within _) hjson hresolved
  have hgaps : first.LeavesGap r.functions → history.LeavesGap r.functions := by
    rintro ⟨i, hi, hgap⟩
    refine ⟨i, ?_, hgap⟩
    rw [← hinner, History.invocations_append]
    exact List.mem_append_left _ hi
  have hdefined := (Value.jsonLike_of_answers hjson hkeys hanswers).mono hgaps
  have hfields : (Value.ofFields [("name", definition.name), ("surfaceId", .str surfaceId),
      ("sourceComponentId", .str sourceComponentId), ("timestamp", .str timestamp),
      ("context", .map (context.filter fun entry => !entry.2.isUndefined))]).JsonLike
      (history.LeavesGap r.functions) := by
    have hnames : ["name", "surfaceId", "sourceComponentId", "timestamp", "context"].Nodup := by
      decide
    refine Value.jsonLike_ofFields hnames ?_
    simp only [List.forall_mem_cons]
    exact ⟨hname.mono False.elim, .str _, .str _, .str _, hdefined, List.forall_mem_nil _⟩
  have hpayload := hfields.field_alone "action"
  have hclean (hnone : ¬history.LeavesGap r.functions) :=
    And.intro (hpayload.mono hnone) (Value.IsJson.not_hasUndefined (hpayload.mono hnone))
  refine ⟨_, ?_, hpayload, hclean, fun hreturns => ?_⟩
  · rw [ActionEvent.payload, htimestamp]
    rfl
  · exact hclean (History.not_leavesGap hreturns history)

def listResolver : Resolver where
  dataModel := .map [(.str "user", .str "ada")]
  scope := .null
  functions := ⟨[("list", Stock.function "list" .args)], List.nodup_singleton "list"⟩
  settings := Settings.standard
  clock := ⟨⟨2026, 1, 25⟩, 12, 0, 0, 0, none⟩

def listAction (path : String) : Value :=
  .ofFields [("event", .ofFields [("name", .str "submit"),
    ("context", .ofFields [("x", .ofFields [("call", .str "list"),
      ("args", .list [.ofFields [("path", .str path)]])])])])]

theorem holdsJson_listResolver : listResolver.HoldsJson where
  dataModel := Value.JsonLike.field_alone (.str "ada") "user"
  scope := .null
  functions := by
    intro entry he
    rw [List.mem_singleton.1 he]
    exact fun args view => .list fun item hitem => .argument hitem

theorem isJson_listAction (path : String) : (listAction path).IsJson := by
  have hpath : (Value.ofFields [("path", .str path)]).IsJson := .field_alone (.str path) "path"
  have hargs : (Value.list [.ofFields [("path", .str path)]]).IsJson := by
    refine .list (fun hmem => ?_) (List.forall_mem_singleton.2 fun _ => hpath)
    cases List.mem_singleton.1 hmem
  have hcall : (Value.ofFields [("call", .str "list"), ("args", _)]).IsJson :=
    Value.jsonLike_ofFields (show ["call", "args"].Nodup by decide)
      (List.forall_mem_cons.2 ⟨.str "list", List.forall_mem_singleton.2 hargs⟩)
  have hevent : (Value.ofFields [("name", .str "submit"), ("context", _)]).IsJson :=
    Value.jsonLike_ofFields (show ["name", "context"].Nodup by decide)
      (List.forall_mem_cons.2 ⟨.str "submit", List.forall_mem_singleton.2 (hcall.field_alone "x")⟩)
  exact hevent.field_alone "event"

open ActionEvent in
/-- The list of the user is submitted as it is. -/
theorem event_payload_json_user :
    listResolver.HoldsJson ∧ (listAction "/user").IsJson ∧
    ∃ e payload, (build listResolver (listAction "/user") "main" "button"
        listResolver.clock 0).result = .ok (some e) ∧
      e.payload = .ok payload ∧ payload.IsJson ∧ ¬payload.HasUndefined := by
  have htimestamp : listResolver.clock.timestamp = .ok "2026-01-25T12:00:00.000Z" := by cbv
  have hbuilt : build listResolver (listAction "/user") "main" "button" listResolver.clock 0
      = ⟨.ok (some ⟨.str "submit", "main", "button", [(.str "x", .list [.str "ada"])],
          listResolver.clock⟩),
        (build listResolver (listAction "/user") "main" "button" listResolver.clock 0).history⟩ :=
    rfl
  have hargs : (build listResolver (listAction "/user") "main" "button"
      listResolver.clock 0).history.invocations.map Invocation.args = [[.str "ada"]] := rfl
  obtain ⟨payload, hpayload, -, hclean, -⟩ := event_payload_json holdsJson_listResolver
    (isJson_listAction "/user") hbuilt htimestamp
  refine ⟨holdsJson_listResolver, isJson_listAction "/user", _, payload, rfl, hpayload, hclean ?_⟩
  rintro ⟨i, hi, hgap⟩
  have hmem : i.args ∈ [[Value.str "ada"]] := hargs ▸ List.mem_map_of_mem hi
  have hundefined : .undefined ∈ [Value.str "ada"] := List.mem_singleton.1 hmem ▸ hgap.1
  cases List.mem_singleton.1 hundefined

open ActionEvent in
/-- The list of what is nowhere is submitted with an undefined value in it. -/
theorem undefined_in_payload :
    listResolver.HoldsJson ∧ (listAction "/gone").IsJson ∧
    ∃ e payload, (build listResolver (listAction "/gone") "main" "button"
        listResolver.clock 0).result = .ok (some e) ∧
      e.payload = .ok payload ∧ payload.HasUndefined := by
  have hpayload : ActionEvent.payload ⟨.str "submit", "main", "button",
      [(.str "x", .list [.undefined])], listResolver.clock⟩ = .ok (.ofFields [("action", .ofFields
        [("name", .str "submit"), ("surfaceId", .str "main"), ("sourceComponentId", .str "button"),
          ("timestamp", .str "2026-01-25T12:00:00.000Z"),
          ("context", .ofFields [("x", .list [.undefined])])])]) := by cbv
  have hlist : (Value.list [.undefined]).HasUndefined := .list List.mem_cons_self .here
  have hcontext : (Value.ofFields [("x", .list [.undefined])]).HasUndefined :=
    .field hlist List.mem_cons_self
  have hlast : ("context", Value.ofFields [("x", .list [.undefined])]) ∈
      [("name", Value.str "submit"), ("surfaceId", .str "main"),
        ("sourceComponentId", .str "button"), ("timestamp", .str "2026-01-25T12:00:00.000Z"),
        ("context", .ofFields [("x", .list [.undefined])])] := by simp
  exact ⟨holdsJson_listResolver, isJson_listAction "/gone", _, _, rfl, hpayload,
    .field (.field hcontext hlast) List.mem_cons_self⟩

end LiveValue
