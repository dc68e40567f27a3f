import LiveValue.Host.Stock
import LiveValue.Proofs.Addresses
import LiveValue.Proofs.Comparison

/-!
# The height of nested calls

A described call needs a level of its own, and below it as many as the most demanding of its
arguments. The arguments of an unknown function are never resolved and need none. Where the known
functions come to values by themselves, this need alone decides whether the limit of the depth is
met: in which order arguments are resolved, and what they come to, has no part in it.

* `Value.need`: how many levels a value needs;
* `Value.Resolvable`: the values in which nothing but the limit can stop a run;
* `Value.Resolvable.resolve_at`: what such a value comes to, at every depth;
* `limit_met_at_need`: the limit and the need.
-/

namespace LiveValue

/-! ## Arguments are smaller than their call -/

namespace Descriptor

theorem sizeOf_ofNat_octet (octet : UInt8) :
    sizeOf (Value.ofNat octet.toNat) = sizeOf octet := by
  obtain ⟨⟨⟨n, hn⟩⟩⟩ := octet
  have hint : sizeOf (n : Int) = 1 + n := Int.ofNat.sizeOf_spec n
  change 1 + (1 + sizeOf (n : Int)) = 1 + (1 + (1 + n))
  rw [hint]

theorem sizeOf_lt_of_mem_arguments {value arg : Value} (h : arg ∈ arguments (some value)) :
    sizeOf arg < sizeOf value := by
  cases value with
  | list items =>
    have hitem : sizeOf arg < sizeOf items := List.sizeOf_lt_of_mem h
    rw [Value.list.sizeOf_spec]
    omega
  | tuple items =>
    have hitem : sizeOf arg < sizeOf items := List.sizeOf_lt_of_mem h
    rw [Value.tuple.sizeOf_spec]
    omega
  | bytes octets =>
    obtain ⟨octet, hoctet, rfl⟩ := List.mem_map.1 h
    have hitem : sizeOf octet < sizeOf octets := List.sizeOf_lt_of_mem hoctet
    rw [sizeOf_ofNat_octet, Value.bytes.sizeOf_spec]
    omega
  | _ => cases h

theorem ofValue_eq_call {value : Value} {c : Call} (h : ofValue value = .call c) :
    ∃ entries, value = .map entries ∧ c.args = arguments (Value.field? "args" entries) := by
  cases value with
  | map entries =>
    refine ⟨entries, rfl, ?_⟩
    change ofEntries entries = _ at h
    unfold ofEntries at h
    split at h
    · cases h
      rfl
    · split at h <;> cases h
  | _ => cases h

theorem sizeOf_lt_of_mem_args {value arg : Value} {c : Call} (h : ofValue value = .call c)
    (harg : arg ∈ c.args) : sizeOf arg < sizeOf value := by
  obtain ⟨entries, rfl, hargs⟩ := ofValue_eq_call h
  rw [hargs] at harg
  cases hfield : Value.field? "args" entries with
  | none =>
    rw [hfield] at harg
    cases harg
  | some written =>
    rw [hfield] at harg
    have hsmall := sizeOf_lt_of_mem_arguments harg
    have hentry := List.sizeOf_lt_of_mem (Value.mem_of_field? hfield)
    rw [Prod.mk.sizeOf_spec] at hentry
    rw [Value.map.sizeOf_spec]
    omega

end Descriptor

/-! ## What a value needs -/

namespace Value

/-- How many levels a value needs to be resolved: none if it describes no call, and for a call one
level, with those of the most demanding argument if the function is known. -/
def need (registry : Registry HostFunction) (value : Value) : Nat :=
  match h : Descriptor.ofValue value with
  | .literal _ | .binding _ => 0
  | .call c =>
      if registry.contains c.name then
        1 + (c.args.attach.map fun arg =>
          have := Descriptor.sizeOf_lt_of_mem_args h arg.2
          need registry arg.1).foldr max 0
      else 1
termination_by sizeOf value

variable {registry : Registry HostFunction} {value : Value} {c : Call}

theorem need_of_not_call (h : ∀ c, Descriptor.ofValue value ≠ .call c) :
    value.need registry = 0 := by
  rw [need]
  split
  · rfl
  · rfl
  · next c hcall => exact absurd hcall (h c)

theorem need_of_call (h : Descriptor.ofValue value = .call c) :
    value.need registry =
      if registry.contains c.name then 1 + (c.args.map (need registry)).foldr max 0 else 1 := by
  rw [need]
  split
  · next hliteral =>
    rw [h] at hliteral
    cases hliteral
  · next hbinding =>
    rw [h] at hbinding
    cases hbinding
  · next hcall =>
    rw [h] at hcall
    cases hcall
    rw [← List.attach_map_val (l := c.args) (f := need registry)]

theorem need_of_unknown (h : Descriptor.ofValue value = .call c)
    (hf : registry.get? c.name = none) : value.need registry = 1 := by
  have hcontains : ¬registry.contains c.name = true := by
    rw [← Registry.isSome_get?, hf]
    decide
  rw [need_of_call h, if_neg hcontains]

theorem need_of_known {f : HostFunction} (h : Descriptor.ofValue value = .call c)
    (hf : registry.get? c.name = some f) :
    value.need registry = 1 + (c.args.map (need registry)).foldr max 0 := by
  have hcontains : registry.contains c.name = true := by
    rw [← Registry.isSome_get?, hf]
    rfl
  rw [need_of_call h, if_pos hcontains]

/-- The most demanding argument needs no more than all of them do. -/
theorem foldr_max_need_le_iff {args : List Value} {levels : Nat} :
    (args.map (need registry)).foldr max 0 ≤ levels ↔
      ∀ arg ∈ args, arg.need registry ≤ levels := by
  constructor
  · intro h arg harg
    exact (List.le_max_of_le (List.mem_map_of_mem harg) (Nat.le_refl _)).trans h
  · intro h
    exact List.max_le_of_forall_le _ _ (List.forall_mem_map.2 h)

end Value

/-! ## Functions that come to values by themselves -/

namespace Program

/-- The program comes to a value without a question to the engine, whatever number of notes it is
told. -/
inductive Returns : Program → Prop
  | done (value : Value) : Returns (.done value)
  | record {note : Note} {next : Nat → Program} :
      (∀ taken, Returns (next taken)) → Returns (.record note next)

end Program

def Context.atDepth (ctx : Context) (depth : Int) : Context := { ctx with depth }

theorem Context.deeper_atDepth (ctx : Context) (depth : Int) :
    (ctx.atDepth depth).deeper = ctx.atDepth (depth + 1) :=
  rfl

/-- In this place, the function comes to a value by itself for all arguments and at every depth. -/
def HostFunction.ReturnsIn (ctx : Context) (f : HostFunction) : Prop :=
  ∀ args depth, (f args (ctx.atDepth depth).toView).Returns

/-- In this place nothing but the limit of the depth can stop the run of the value: what it refers
to can be looked up, and the known functions that it calls come to values by themselves. Nothing is
asked of the arguments of an unknown function. -/
inductive Value.Resolvable (ctx : Context) : Value → Prop
  | literal {value content : Value} :
      Descriptor.ofValue value = .literal content → Resolvable ctx value
  | binding {value found : Value} {path : String} :
      Descriptor.ofValue value = .binding path →
      Path.resolve ctx.dataModel ctx.scope path = .ok found → Resolvable ctx value
  | unknown {value : Value} {c : Call} :
      Descriptor.ofValue value = .call c → ctx.registry.get? c.name = none → Resolvable ctx value
  | known {value : Value} {c : Call} {f : HostFunction} :
      Descriptor.ofValue value = .call c → ctx.registry.get? c.name = some f → f.ReturnsIn ctx →
      (∀ arg ∈ c.args, Resolvable ctx arg) → Resolvable ctx value

/-! ## Results of evaluations -/

namespace Eval

variable {α β : Type} {m : Eval α} {f : α → Eval β} {taken : Nat}

theorem result_bind_of_error {fault : Fault} (h : (m taken).result = .error fault) :
    ((m >>= f) taken).result = .error fault := by
  rcases m.apply_eq taken with ⟨raised, history, hm⟩ | ⟨a, history, hm⟩
  · rw [hm] at h
    cases h
    rw [bind_of_error hm]
  · rw [hm] at h
    cases h

theorem result_bind_of_ok {a : α} (h : (m taken).result = .ok a) :
    ∃ later, ((m >>= f) taken).result = (f a later).result := by
  rcases m.apply_eq taken with ⟨raised, history, hm⟩ | ⟨b, history, hm⟩
  · rw [hm] at h
    cases h
  · rw [hm] at h
    cases h
    exact ⟨_, by rw [bind_of_ok hm]⟩

theorem result_mapM_cons {g : β → Eval α} {x : β} {a : α} (h : (g x taken).result = .ok a)
    (rest : List β) :
    ∃ later, ((x :: rest).mapM g taken).result
      = ((rest.mapM g >>= fun as => pure (a :: as)) later).result := by
  rw [List.mapM_cons]
  exact result_bind_of_ok h

/-- Items that all come to values come to the list of them. -/
theorem mapM_of_ok {g : β → Eval α} {items : List β}
    (h : ∀ x ∈ items, ∀ taken, ∃ a, (g x taken).result = .ok a) (taken : Nat) :
    ∃ as, (items.mapM g taken).result = .ok as := by
  induction items generalizing taken with
  | nil => exact ⟨[], rfl⟩
  | cons x rest ih =>
    rw [List.forall_mem_cons] at h
    obtain ⟨a, ha⟩ := h.1 taken
    obtain ⟨later, hfirst⟩ := result_mapM_cons ha rest
    obtain ⟨as, has⟩ := ih h.2 later
    obtain ⟨last, hrest⟩ := result_bind_of_ok (f := fun as => pure (a :: as)) has
    exact ⟨a :: as, hfirst.trans hrest⟩

/-- If some item stops, the first one that does stops all. -/
theorem mapM_of_error {g : β → Eval α} {items : List β} {P : β → Prop} {F : Fault → Prop}
    (hok : ∀ x ∈ items, P x → ∀ taken, ∃ a, (g x taken).result = .ok a)
    (herror : ∀ x ∈ items, ¬P x → ∀ taken, ∃ fault, F fault ∧ (g x taken).result = .error fault)
    (h : ¬∀ x ∈ items, P x) (taken : Nat) :
    ∃ fault, F fault ∧ (items.mapM g taken).result = .error fault := by
  induction items generalizing taken with
  | nil => exact absurd (List.forall_mem_nil _) h
  | cons x rest ih =>
    rw [List.forall_mem_cons] at hok herror h
    by_cases hx : P x
    · obtain ⟨a, ha⟩ := hok.1 hx taken
      obtain ⟨later, hfirst⟩ := result_mapM_cons ha rest
      obtain ⟨fault, hfault, hrest⟩ := ih hok.2 herror.2 (fun hall => h ⟨hx, hall⟩) later
      exact ⟨fault, hfault, hfirst.trans (result_bind_of_error hrest)⟩
    · obtain ⟨fault, hfault, hfirst⟩ := herror.1 hx taken
      rw [List.mapM_cons]
      exact ⟨fault, hfault, result_bind_of_error hfirst⟩

end Eval

theorem Program.Returns.result_run {program : Program} (h : program.Returns) (e : Engine)
    (ctx : Context) (taken : Nat) :
    ∃ value, (e.run ctx program taken).result = .ok value := by
  induction h generalizing taken with
  | done value => exact ⟨value, rfl⟩
  | @record note next _ ih =>
    have htaken : (Eval.note note taken).result = .ok (taken + 1) := rfl
    obtain ⟨later, hnote⟩ := Eval.result_bind_of_ok (f := fun k => e.run ctx (next k)) htaken
    obtain ⟨value, hvalue⟩ := ih (taken + 1) later
    exact ⟨value, hnote.trans hvalue⟩

theorem HostFunction.ReturnsIn.result_invoke {ctx : Context} {f : HostFunction}
    (h : f.ReturnsIn ctx) (depth : Int) {name : String} (args : List Value) (taken : Nat) :
    ∃ value, ((ctx.atDepth depth).invoke name f args taken).result = .ok value := by
  obtain ⟨value, hvalue⟩ :=
    (h args depth).result_run (ctx.atDepth depth).engine (ctx.atDepth depth) taken
  refine ⟨value, ?_⟩
  rw [Context.invoke, Engine.invoke, Eval.emit_bind_apply rfl]
  exact hvalue

/-! ## Calls, step by step -/

namespace Context

variable (ctx : Context) {c : Call}

theorem resolve_of_call {value : Value} (h : Descriptor.ofValue value = .call c) :
    ctx.resolve value = ctx.call c := by
  rw [resolve_eq, h]

theorem call_of_le (h : ctx.limit ≤ ctx.depth) : ctx.call c = ctx.refuse (some c.name) := by
  rw [call_eq, descend_bind_of_le h]

theorem call_of_unknown (h : ctx.depth < ctx.limit) (hf : ctx.registry.get? c.name = none) :
    ctx.call c = (do
      Eval.emit (.sought c.name)
      Eval.log (.unknownFunction c.name)
      return .undefined) := by
  have hdeeper : ctx.deeper.registry.get? c.name = none := hf
  rw [call_eq, descend_bind_of_lt h, lookup_bind, hdeeper]

theorem call_of_known {f : HostFunction} (h : ctx.depth < ctx.limit)
    (hf : ctx.registry.get? c.name = some f) :
    ctx.call c = (do
      Eval.emit (.sought c.name)
      let values ← c.args.mapM ctx.deeper.resolve
      ctx.deeper.invoke c.name f values) := by
  have hdeeper : ctx.deeper.registry.get? c.name = some f := hf
  rw [call_eq, descend_bind_of_lt h, lookup_bind, hdeeper]

end Context

/-! ## The limit and the need -/

/-- From a depth on there are as many levels as are needed, or no level is needed at all. -/
def Fits (limit depth : Int) (need : Nat) : Prop := depth + need ≤ limit ∨ need = 0

/-- The fault of the first level that is not there. -/
def IsRefusal (limit depth : Int) (fault : Fault) : Prop :=
  ∃ expression, fault = .nesting (max depth limit + 1) limit expression

/-- A result that comes from the need alone: a value if the levels fit, else the refusal of the
first one that is missing. -/
structure Outcome.FollowsNeed {α : Type} (limit depth : Int) (need : Nat) (o : Outcome α) :
    Prop where
  ok_of_fits : Fits limit depth need → ∃ a, o.result = .ok a
  error_of_not_fits : ¬Fits limit depth need →
    ∃ fault, IsRefusal limit depth fault ∧ o.result = .error fault

namespace Value

variable {ctx : Context} {value : Value}

/-- With room for a call, its levels are there if those of every argument are there one level
further down. -/
theorem fits_call_iff (registry : Registry HostFunction) (args : List Value) {limit depth : Int}
    (hroom : depth < limit) :
    Fits limit depth (1 + (args.map (need registry)).foldr max 0) ↔
      ∀ arg ∈ args, Fits limit (depth + 1) (arg.need registry) := by
  have hbelow (levels : Nat) :
      Fits limit (depth + 1) levels ↔ levels ≤ (limit - (depth + 1)).toNat := by
    unfold Fits
    omega
  have hcall (levels : Nat) :
      Fits limit depth (1 + levels) ↔ levels ≤ (limit - (depth + 1)).toNat := by
    unfold Fits
    omega
  simp only [hbelow, hcall, foldr_max_need_le_iff]

theorem Resolvable.call_known {c : Call} {f : HostFunction} {depth : Int}
    (hf : ctx.registry.get? c.name = some f) (hreturns : f.ReturnsIn ctx)
    (hargs : ∀ arg ∈ c.args, ∀ taken, ((ctx.atDepth (depth + 1)).resolve arg taken).FollowsNeed
      ctx.limit (depth + 1) (arg.need ctx.registry))
    (hroom : depth < ctx.limit) (taken : Nat) :
    ((ctx.atDepth depth).call c taken).FollowsNeed ctx.limit depth
      (1 + (c.args.map (need ctx.registry)).foldr max 0) := by
  have hcall : (ctx.atDepth depth).call c = _ :=
    (ctx.atDepth depth).call_of_known hroom hf
  rw [Context.deeper_atDepth] at hcall
  rw [hcall, Eval.emit_bind_apply rfl]
  have hfits := fits_call_iff ctx.registry c.args hroom
  constructor
  · intro h
    obtain ⟨values, hvalues⟩ := Eval.mapM_of_ok
      (fun arg harg taken => (hargs arg harg taken).ok_of_fits (hfits.1 h arg harg)) taken
    obtain ⟨last, hcome⟩ := Eval.result_bind_of_ok
      (f := (ctx.atDepth (depth + 1)).invoke c.name f) hvalues
    obtain ⟨found, hfound⟩ := HostFunction.ReturnsIn.result_invoke hreturns (depth + 1) values last
    exact ⟨found, hcome.trans hfound⟩
  · intro h
    obtain ⟨fault, ⟨expression, hfault⟩, hstop⟩ := Eval.mapM_of_error
      (fun arg harg hfit taken => (hargs arg harg taken).ok_of_fits hfit)
      (fun arg harg hfit taken => (hargs arg harg taken).error_of_not_fits hfit)
      (fun hall => h (hfits.2 hall)) taken
    refine ⟨fault, ⟨expression, ?_⟩, Eval.result_bind_of_error hstop⟩
    rw [hfault, max_eq_right hroom.le, max_eq_right (Int.add_one_le_of_lt hroom)]

/-- A call for which there is no room is refused, and every call needs a level. -/
theorem call_of_no_room {c : Call} {depth : Int} {need : Nat} (hroom : ctx.limit ≤ depth)
    (hneed : 0 < need) (taken : Nat) :
    ((ctx.atDepth depth).call c taken).FollowsNeed ctx.limit depth need := by
  have hcall : (ctx.atDepth depth).call c = _ := (ctx.atDepth depth).call_of_le hroom
  rw [hcall]
  constructor
  · intro hfits
    unfold Fits at hfits
    omega
  · intro _
    refine ⟨.nesting (depth + 1) ctx.limit (some c.name), ⟨some c.name, ?_⟩, rfl⟩
    rw [max_eq_left hroom]

/-- A value in which nothing but the limit can stop a run comes to what its need says, whatever the
depth. -/
theorem Resolvable.resolve_at (h : value.Resolvable ctx) (depth : Int) (taken : Nat) :
    ((ctx.atDepth depth).resolve value taken).FollowsNeed ctx.limit depth
      (value.need ctx.registry) := by
  induction h generalizing depth taken with
  | @literal value content hliteral =>
    rw [Context.resolve_eq, hliteral, need_of_not_call (by rw [hliteral]; rintro c ⟨⟩)]
    exact ⟨fun _ => ⟨content, rfl⟩, fun hneed => absurd (.inr rfl) hneed⟩
  | @binding value found path hbinding hpath =>
    have hdata : (ctx.atDepth depth).data path = pure found := by
      unfold Context.data
      exact congrArg Eval.ofExcept hpath
    have hresolve : (ctx.atDepth depth).resolve value = pure found := by
      rw [Context.resolve_eq, hbinding]
      exact hdata
    rw [hresolve, need_of_not_call (by rw [hbinding]; rintro c ⟨⟩)]
    exact ⟨fun _ => ⟨found, rfl⟩, fun hneed => absurd (.inr rfl) hneed⟩
  | @unknown value c hcall hf =>
    rw [need_of_unknown hcall hf, Context.resolve_of_call _ hcall]
    rcases Int.lt_or_le depth ctx.limit with hroom | hroom
    · have hunknown : (ctx.atDepth depth).call c = _ :=
        (ctx.atDepth depth).call_of_unknown hroom hf
      rw [hunknown]
      exact ⟨fun _ => ⟨.undefined, rfl⟩, fun hneed => absurd (.inl (by omega)) hneed⟩
    · exact call_of_no_room hroom (by decide) taken
  | @known value c f hcall hf hreturns hargs ih =>
    rw [need_of_known hcall hf, Context.resolve_of_call _ hcall]
    rcases Int.lt_or_le depth ctx.limit with hroom | hroom
    · exact call_known hf hreturns (fun arg harg taken => ih arg harg (depth + 1) taken) hroom taken
    · exact call_of_no_room hroom (by omega) taken

end Value

/-- **The limit and the need.** Where nothing but the limit can stop the run of a value, it comes to
a value if the levels that the value needs are there, or if it needs none, and otherwise it stops at
the first level beyond the limit. -/
theorem limit_met_at_need (ctx : Context) {value : Value} (h : value.Resolvable ctx) (taken : Nat) :
    let need := value.need ctx.registry
    ((ctx.depth + need ≤ ctx.limit ∨ need = 0) →
        ∃ found, (ctx.resolve value taken).result = .ok found) ∧
      (¬(ctx.depth + need ≤ ctx.limit ∨ need = 0) →
        ∃ expression, (ctx.resolve value taken).result =
          .error (.nesting (max ctx.depth ctx.limit + 1) ctx.limit expression)) := by
  intro need
  have hhere : ((ctx.atDepth ctx.depth).resolve value taken).FollowsNeed ctx.limit ctx.depth need :=
    h.resolve_at ctx.depth taken
  refine ⟨hhere.ok_of_fits, fun hneed => ?_⟩
  obtain ⟨fault, ⟨expression, rfl⟩, hstop⟩ := hhere.error_of_not_fits hneed
  exact ⟨expression, hstop⟩

def Value.callTo (name : String) (args : List Value) : Value :=
  .map [(.str "call", .str name), (.str "args", .list args)]

theorem Descriptor.ofValue_callTo (name : String) (args : List Value) :
    ofValue (.callTo name args) = .call ⟨name, args, none⟩ := rfl

/-- A place at a depth, with three levels and a function of pairs. -/
def pairContext (depth : Int) : Context :=
  (Context.root (.map [(.str "a", .str "A")]) .null
    ⟨[("pair", Stock.function "pair" .args)], List.nodup_singleton "pair"⟩
    { Settings.standard with maxDepth := 3 } ⟨⟨2026, 1, 25⟩, 12, 0, 0, 0, none⟩).atDepth depth

/-- A call of an unknown function, with more calls below it than there are levels. -/
def lostCall : Value :=
  .callTo "absent" [.callTo "pair" [.callTo "pair" [.callTo "pair" [.callTo "pair" []]]]]

/-- Arguments of different heights: data, a pair with the lost call in it, and the lost call. -/
def pairOfPairs : Value :=
  .callTo "pair" [Descriptor.pathTo "/a", .callTo "pair" [.str "b", lostCall], lostCall]

theorem pairOfPairs_resolvable (depth : Int) : pairOfPairs.Resolvable (pairContext depth) := by
  have hpair {args : List Value} (hargs : ∀ arg ∈ args, arg.Resolvable (pairContext depth)) :
      (Value.callTo "pair" args).Resolvable (pairContext depth) :=
    .known (Descriptor.ofValue_callTo ..) rfl (fun given _ => .done (.list given)) hargs
  have hlost : lostCall.Resolvable (pairContext depth) :=
    .unknown (Descriptor.ofValue_callTo ..) rfl
  have hdata : (Descriptor.pathTo "/a").Resolvable (pairContext depth) := .binding rfl rfl
  have htext : (Value.str "b").Resolvable (pairContext depth) := .literal rfl
  refine hpair (List.forall_mem_cons.2 ⟨hdata, List.forall_mem_cons.2 ⟨hpair ?_, ?_⟩⟩)
  · exact List.forall_mem_cons.2 ⟨htext, List.forall_mem_singleton.2 hlost⟩
  · exact List.forall_mem_singleton.2 hlost

theorem need_pairOfPairs (depth : Int) : pairOfPairs.need (pairContext depth).registry = 3 := by
  have hpair (args : List Value) : (Value.callTo "pair" args).need (pairContext depth).registry
      = 1 + (args.map (Value.need (pairContext depth).registry)).foldr max 0 :=
    Value.need_of_known (Descriptor.ofValue_callTo ..) rfl
  have hlost : lostCall.need (pairContext depth).registry = 1 :=
    Value.need_of_unknown (Descriptor.ofValue_callTo ..) rfl
  have hdata : (Descriptor.pathTo "/a").need (pairContext depth).registry = 0 :=
    Value.need_of_not_call nofun
  have htext : (Value.str "b").need (pairContext depth).registry = 0 :=
    Value.need_of_not_call nofun
  simp [pairOfPairs, hpair, hlost, hdata, htext]

/-- The three levels are just enough at the depth zero. At the depth one the third level is missing,
and beyond the limit the first one is. -/
theorem limit_met_at_need_pair :
    pairOfPairs.Resolvable (pairContext 0) ∧
    (∃ found, ((pairContext 0).resolve pairOfPairs 0).result = .ok found) ∧
    (∃ expression, ((pairContext 1).resolve pairOfPairs 0).result
      = .error (.nesting 4 3 expression)) ∧
    (∃ expression, ((pairContext 7).resolve pairOfPairs 0).result
      = .error (.nesting 8 3 expression)) := by
  have hneed (depth : Int) := limit_met_at_need (pairContext depth) (pairOfPairs_resolvable depth) 0
  simp only [need_pairOfPairs] at hneed
  refine ⟨pairOfPairs_resolvable 0, (hneed 0).1 (.inl (by decide)), ?_, ?_⟩
  · exact (hneed 1).2 (by decide)
  · exact (hneed 7).2 (by decide)

end LiveValue
