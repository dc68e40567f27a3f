import LiveValue.Proofs.FaultOrigins
import LiveValue.Proofs.NestingHeight

/-!
# The order of described calls

A described call with its arguments is a tree: the nodes below a call of a known function are its
arguments, and below everything else there is nothing. In this tree a position is the list of the
places at which arguments stand on the way down. A run comes to a value along this tree: for each
call of a known function the function is invoked once, from left to right and after all functions
below it, with what the arguments came to. Nothing but the nodes of the tree is resolved: not what a
path or a function comes to, not what stands inside a literal, and not the arguments of an unknown
function.

* `Value.node?`: the node at a position;
* `Value.calls`: the calls of known functions in the tree, from the inside out and left to right;
* `Value.ComesTo`: what a node comes to, given what its arguments came to;
* `Context.Ran`: a run that follows the tree;
* `Task.IsAtNode`: what a run may reach;
* `calls_run_inside_out`: a run that comes to a value follows the tree, and reaches nothing else.
-/

namespace LiveValue

theorem Descriptor.ofValue_eq_literal {value content : Value}
    (h : ofValue value = .literal content) : content = value := by
  cases value with
  | map entries =>
    change ofEntries entries = _ at h
    unfold ofEntries at h
    split at h
    · cases h
    · split at h
      · cases h
      · cases h
        rfl
  | _ =>
    cases h
    rfl

theorem Registry.contains_of_get? {α : Type} {registry : Registry α} {name : String} {a : α}
    (h : registry.get? name = some a) : registry.contains name = true := by
  rw [← isSome_get?, h]
  rfl

theorem Registry.contains_of_get?_eq_none {α : Type} {registry : Registry α} {name : String}
    (h : registry.get? name = none) : registry.contains name = false := by
  rw [← isSome_get?, h]
  rfl

/-! ## The tree of a value -/

namespace Value

variable {registry : Registry HostFunction} {value node arg : Value} {c : Call} {i : Nat}
  {position : List Nat}

/-- To show something for every value, it is enough to show it for a value from the arguments of the
call that it describes. -/
theorem descriptor_induction {motive : Value → Prop}
    (step : ∀ value, (∀ c, Descriptor.ofValue value = .call c → ∀ arg ∈ c.args, motive arg) →
      motive value) (value : Value) : motive value :=
  step value fun _ hcall arg harg =>
    have := Descriptor.sizeOf_lt_of_mem_args hcall harg
    descriptor_induction step arg
termination_by sizeOf value

/-- The node at a position: below a call of a known function, its arguments in order. -/
def node? (registry : Registry HostFunction) : Value → List Nat → Option Value
  | value, [] => some value
  | value, i :: rest =>
      match Descriptor.ofValue value with
      | .call c =>
          if registry.contains c.name then c.args[i]?.bind fun arg => node? registry arg rest
          else none
      | _ => none

/-- An entry of the argument at a place, as an entry of its call. -/
def inArgument (i : Nat) (entry : List Nat × Call) : List Nat × Call := (i :: entry.1, entry.2)

/-- The calls of known functions in the tree, with their positions: those in the arguments, from
left to right, come before the call itself. -/
def calls (registry : Registry HostFunction) (value : Value) : List (List Nat × Call) :=
  match h : Descriptor.ofValue value with
  | .literal _ | .binding _ => []
  | .call c =>
      if registry.contains c.name then
        (c.args.attach.mapIdx fun i arg =>
          have := Descriptor.sizeOf_lt_of_mem_args h arg.2
          (calls registry arg.1).map (inArgument i)).flatten ++ [([], c)]
      else []
termination_by sizeOf value

/-- The value describes no call of a known function. -/
def IsLeaf (registry : Registry HostFunction) (value : Value) : Prop :=
  ∀ c, Descriptor.ofValue value = .call c → registry.contains c.name = false

theorem node?_cons_of_leaf (h : value.IsLeaf registry) (i : Nat) (rest : List Nat) :
    value.node? registry (i :: rest) = none := by
  rw [node?]
  split
  · next c hcall => rw [if_neg (by rw [h c hcall]; decide)]
  · rfl

theorem node?_cons_of_known (h : Descriptor.ofValue value = .call c)
    (hknown : registry.contains c.name = true) (i : Nat) (rest : List Nat) :
    value.node? registry (i :: rest) = c.args[i]?.bind fun arg => arg.node? registry rest := by
  rw [node?, h]
  exact if_pos hknown

theorem calls_of_leaf (h : value.IsLeaf registry) : value.calls registry = [] := by
  rw [calls]
  split
  · rfl
  · rfl
  · next c hcall => rw [if_neg (by rw [h c hcall]; decide)]

theorem mapIdx_attach {α β : Type} (items : List α) (f : Nat → α → β) :
    (items.attach.mapIdx fun i item => f i item.1) = items.mapIdx f := by
  have hvalues : (items.attach.mapIdx fun i item => f i item.1)
      = (items.attach.map Subtype.val).mapIdx f := by
    refine List.ext_getElem? fun i => ?_
    rw [List.getElem?_mapIdx, List.getElem?_mapIdx, List.getElem?_map, Option.map_map]
    rfl
  rw [hvalues, List.attach_map_subtype_val]

theorem calls_of_known (h : Descriptor.ofValue value = .call c)
    (hknown : registry.contains c.name = true) :
    value.calls registry =
      (c.args.mapIdx fun i arg => (arg.calls registry).map (inArgument i)).flatten ++
        [([], c)] := by
  rw [calls]
  split
  · next hliteral =>
    rw [h] at hliteral
    cases hliteral
  · next hbinding =>
    rw [h] at hbinding
    cases hbinding
  · next hcall =>
    rw [h] at hcall
    cases hcall
    rw [if_pos hknown, mapIdx_attach c.args fun i arg => (arg.calls registry).map (inArgument i)]

theorem mem_argumentCalls_iff {args : List Value} {entry : List Nat × Call} :
    entry ∈ (args.mapIdx fun i arg => (arg.calls registry).map (inArgument i)).flatten ↔
      ∃ i arg inner, args[i]? = some arg ∧ inner ∈ arg.calls registry ∧
        entry = inArgument i inner := by
  simp only [List.mem_flatten, List.mem_mapIdx]
  constructor
  · rintro ⟨_, ⟨i, hi, rfl⟩, hentry⟩
    obtain ⟨inner, hinner, rfl⟩ := List.mem_map.1 hentry
    exact ⟨i, args[i], inner, List.getElem?_eq_getElem hi, hinner, rfl⟩
  · rintro ⟨i, arg, inner, harg, hinner, rfl⟩
    obtain ⟨hi, rfl⟩ := List.getElem?_eq_some_iff.1 harg
    exact ⟨_, ⟨i, hi, rfl⟩, List.mem_map_of_mem hinner⟩

theorem inArgument_mem_calls (h : Descriptor.ofValue value = .call c)
    (hknown : registry.contains c.name = true) (harg : arg ∈ c.args) {entry : List Nat × Call}
    (hentry : entry ∈ arg.calls registry) : ∃ i, inArgument i entry ∈ value.calls registry := by
  obtain ⟨i, hi⟩ := List.getElem?_of_mem harg
  refine ⟨i, ?_⟩
  rw [calls_of_known h hknown, List.mem_append]
  exact .inl (mem_argumentCalls_iff.2 ⟨i, arg, entry, hi, hentry, rfl⟩)

/-- The calls stand at the nodes that describe a call of a known function. -/
theorem mem_calls_iff :
    (position, c) ∈ value.calls registry ↔ ∃ node, value.node? registry position = some node ∧
      Descriptor.ofValue node = .call c ∧ registry.contains c.name = true := by
  induction value using descriptor_induction generalizing position with
  | step value ih =>
    by_cases hleaf : value.IsLeaf registry
    · rw [calls_of_leaf hleaf]
      refine iff_of_false List.not_mem_nil ?_
      rintro ⟨node, hnode, hcall, hknown⟩
      cases position with
      | nil =>
        obtain rfl : value = node := Option.some.inj hnode
        rw [hleaf c hcall] at hknown
        cases hknown
      | cons i rest =>
        rw [node?_cons_of_leaf hleaf] at hnode
        cases hnode
    · obtain ⟨outer, houter, hknown⟩ : ∃ outer, Descriptor.ofValue value = .call outer ∧
          registry.contains outer.name = true := by
        simpa [IsLeaf] using hleaf
      rw [calls_of_known houter hknown, List.mem_append, mem_argumentCalls_iff,
        List.mem_singleton]
      cases position with
      | nil =>
        constructor
        · rintro (⟨i, arg, inner, -, -, hentry⟩ | hentry)
          · cases hentry
          · cases hentry
            exact ⟨value, rfl, houter, hknown⟩
        · rintro ⟨node, hnode, hcall, -⟩
          obtain rfl : value = node := Option.some.inj hnode
          rw [houter] at hcall
          cases hcall
          exact .inr rfl
      | cons i rest =>
        rw [node?_cons_of_known houter hknown]
        simp only [Option.bind_eq_some_iff]
        constructor
        · rintro (⟨j, arg, inner, harg, hinner, hentry⟩ | hentry)
          · cases hentry
            obtain ⟨node, hnode, hrest⟩ :=
              (ih outer houter arg (List.mem_of_getElem? harg)).1 hinner
            exact ⟨node, ⟨arg, harg, hnode⟩, hrest⟩
          · cases hentry
        · rintro ⟨node, ⟨arg, harg, hnode⟩, hrest⟩
          refine .inl ⟨i, arg, (rest, c), harg, ?_, rfl⟩
          exact (ih outer houter arg (List.mem_of_getElem? harg)).2 ⟨node, hnode, hrest⟩

/-- The first position is done with before the second one: it lies below it, or further left. -/
def InsideOut : List Nat → List Nat → Prop
  | [], _ => False
  | _ :: _, [] => True
  | i :: rest, j :: more => i < j ∨ (i = j ∧ InsideOut rest more)

theorem InsideOut.irrefl (position : List Nat) : ¬InsideOut position position := by
  induction position with
  | nil => exact id
  | cons i rest ih =>
    rintro (hlt | ⟨-, hrest⟩)
    · exact lt_irrefl i hlt
    · exact ih hrest

theorem pairwise_calls (registry : Registry HostFunction) (value : Value) :
    (value.calls registry).Pairwise fun entry entry' => InsideOut entry.1 entry'.1 := by
  induction value using descriptor_induction with
  | step value ih =>
    by_cases hleaf : value.IsLeaf registry
    · rw [calls_of_leaf hleaf]
      exact .nil
    · obtain ⟨c, hcall, hknown⟩ : ∃ c, Descriptor.ofValue value = .call c ∧
          registry.contains c.name = true := by
        simpa [IsLeaf] using hleaf
      rw [calls_of_known hcall hknown, List.pairwise_append]
      refine ⟨List.pairwise_flatten.2 ⟨?_, ?_⟩, List.pairwise_singleton .., ?_⟩
      · -- within one argument
        intro entries hentries
        obtain ⟨i, hi, rfl⟩ := List.mem_mapIdx.1 hentries
        refine List.pairwise_map.2 ((ih c hcall _ (List.getElem_mem hi)).imp ?_)
        exact fun hinner => .inr ⟨rfl, hinner⟩
      · -- between two arguments
        rw [List.pairwise_iff_getElem]
        intro i j hi hj hlt entry hentry entry' hentry'
        rw [List.getElem_mapIdx] at hentry hentry'
        obtain ⟨_, -, rfl⟩ := List.mem_map.1 hentry
        obtain ⟨_, -, rfl⟩ := List.mem_map.1 hentry'
        exact .inl hlt
      · -- between an argument and the call
        intro entry hentry entry' hentry'
        obtain ⟨i, arg, inner, -, -, rfl⟩ := mem_argumentCalls_iff.1 hentry
        obtain rfl := List.mem_singleton.1 hentry'
        trivial

/-- No position comes twice. -/
theorem nodup_calls (registry : Registry HostFunction) (value : Value) :
    ((value.calls registry).map Prod.fst).Nodup := by
  refine List.pairwise_map.2 ((pairwise_calls registry value).imp ?_)
  intro entry entry' hbefore heq
  rw [heq] at hbefore
  exact InsideOut.irrefl _ hbefore

/-- The node at a position below another one. -/
theorem node?_append (registry : Registry HostFunction) (value : Value)
    (position rest : List Nat) :
    value.node? registry (position ++ rest)
      = (value.node? registry position).bind fun node => node.node? registry rest := by
  induction position generalizing value with
  | nil => rfl
  | cons i position ih =>
    rw [List.cons_append, node?, node?]
    split
    · split
      · rw [Option.bind_assoc]
        simp only [ih]
      · rfl
    · rfl

end Value

/-! ## Functions that ask for nothing -/

/-- The program ends without asking the engine for anything. -/
inductive Program.AsksNothing : Program → Prop
  | done (value : Value) : AsksNothing (.done value)
  | fail (fault : Fault) : AsksNothing (.fail fault)
  | record {note : Note} {next : Nat → Program} :
      (∀ taken, AsksNothing (next taken)) → AsksNothing (.record note next)

/-- The function never goes back into the engine. -/
def HostFunction.AsksNothing (f : HostFunction) : Prop := ∀ args view, (f args view).AsksNothing

/-- The known functions that are called in the tree never go back into the engine. -/
def Value.AsksNothing (registry : Registry HostFunction) (value : Value) : Prop :=
  ∀ entry ∈ value.calls registry, ∀ f, registry.get? entry.2.name = some f → f.AsksNothing

theorem Value.AsksNothing.argument {registry : Registry HostFunction} {value arg : Value} {c : Call}
    (h : value.AsksNothing registry) (hcall : Descriptor.ofValue value = .call c)
    (hknown : registry.contains c.name = true) (harg : arg ∈ c.args) :
    arg.AsksNothing registry := by
  intro entry hentry f hf
  obtain ⟨i, hmem⟩ := inArgument_mem_calls hcall hknown harg hentry
  exact h _ hmem f hf

/-- No function that is called at a node asks for anything. -/
theorem Value.AsksNothing.at_node {registry : Registry HostFunction} {value node : Value}
    {position : List Nat} {c : Call} {f : HostFunction} (h : value.AsksNothing registry)
    (hnode : value.node? registry position = some node) (hcall : Descriptor.ofValue node = .call c)
    (hf : registry.get? c.name = some f) : f.AsksNothing :=
  h (position, c)
    (mem_calls_iff.2 ⟨node, hnode, hcall, Registry.contains_of_get? hf⟩) f hf

theorem Program.AsksNothing.invocations_run {program : Program} (h : program.AsksNothing)
    (e : Engine) (ctx : Context) (taken : Nat) :
    (e.run ctx program taken).history.invocations = [] := by
  induction h generalizing taken with
  | done value => rfl
  | fail fault => rfl
  | @record note next _ ih =>
    have hnote : Eval.note note taken = ⟨.ok (taken + 1), [.noted note]⟩ := rfl
    rw [Engine.run, Eval.bind_of_ok hnote, History.invocations_append, ih]
    rfl

theorem Program.AsksNothing.not_starts {program : Program} (h : program.AsksNothing)
    {ctx c : Context} {t : Task} : ¬(Course.ofProgram ctx program).Starts c t := by
  induction h with
  | done value => nofun
  | fail fault => nofun
  | record _ ih =>
    rintro (_ | _ | _ | ⟨taken, hstarts⟩)
    exact ih taken hstarts

theorem HostFunction.AsksNothing.invocations_invoke {f : HostFunction} (h : f.AsksNothing)
    (ctx : Context) (name : String) (args : List Value) (taken : Nat) :
    (ctx.invoke name f args taken).history.invocations = [⟨name, args, ctx⟩] := by
  have hrun := (h args ctx.toView).invocations_run ctx.engine ctx taken
  rw [Context.invoke, Engine.invoke, Eval.emit_bind_apply rfl]
  exact congrArg (List.cons _) hrun

/-! ## Items one after another -/

namespace Eval

variable {α β : Type}

theorem of_bind_eq_ok {m : Eval α} {f : α → Eval β} {taken : Nat} {b : β} {history : History}
    (h : (m >>= f) taken = ⟨.ok b, history⟩) :
    ∃ a first later, m taken = ⟨.ok a, first⟩ ∧
      f a (taken + first.notes.length) = ⟨.ok b, later⟩ ∧ history = first ++ later := by
  rcases m.apply_eq taken with ⟨fault, first, hm⟩ | ⟨a, first, hm⟩
  · rw [bind_of_error hm] at h
    cases h
  · rw [bind_of_ok hm] at h
    rcases hf : f a (taken + first.notes.length) with ⟨result, later⟩
    rw [hf] at h
    cases h
    exact ⟨a, first, later, hm, hf, rfl⟩

/-- The items come to values one after another, and each finds the notes taken that those before it
have left. -/
inductive EachRan (g : β → Eval α) : Nat → List β → List α → History → Prop
  | nil {taken : Nat} : EachRan g taken [] [] []
  | cons {taken : Nat} {x : β} {rest : List β} {a : α} {as : List α} {first later : History} :
      g x taken = ⟨.ok a, first⟩ → EachRan g (taken + first.notes.length) rest as later →
      EachRan g taken (x :: rest) (a :: as) (first ++ later)

theorem eachRan_of_mapM {g : β → Eval α} {items : List β} {taken : Nat} {as : List α}
    {history : History} (h : items.mapM g taken = ⟨.ok as, history⟩) :
    EachRan g taken items as history := by
  induction items generalizing taken as history with
  | nil =>
    cases h
    exact .nil
  | cons x rest ih =>
    rw [List.mapM_cons] at h
    obtain ⟨a, first, later, hfirst, hlater, rfl⟩ := of_bind_eq_ok h
    obtain ⟨others, before, after, hrest, hpure, rfl⟩ := of_bind_eq_ok hlater
    cases hpure
    rw [List.append_nil]
    exact .cons hfirst (ih hrest)

end Eval

/-! ## Runs that follow the tree -/

/-- What a value comes to in a context, given what its arguments came to: a literal comes to itself,
a path to what it leads to, a call of an unknown function to nothing, and a call of a known one to
what the function comes to with these arguments one level down. -/
inductive Value.ComesTo (ctx : Context) (arguments : Nat → Value) : Value → Value → Prop
  | literal {value content : Value} :
      Descriptor.ofValue value = .literal content → ComesTo ctx arguments value value
  | binding {value found : Value} {path : String} :
      Descriptor.ofValue value = .binding path →
      Path.resolve ctx.dataModel ctx.scope path = .ok found → ComesTo ctx arguments value found
  | unknown {value : Value} {c : Call} :
      Descriptor.ofValue value = .call c → ctx.registry.get? c.name = none →
      ComesTo ctx arguments value .undefined
  | known {value found : Value} {c : Call} {f : HostFunction} {taken : Nat} :
      Descriptor.ofValue value = .call c → ctx.registry.get? c.name = some f →
      (ctx.deeper.invoke c.name f (c.args.mapIdx fun i _ => arguments i) taken).result = .ok found →
      ComesTo ctx arguments value found

namespace Context

/-- The context at a position of the tree. There are as many calls above it as it is long. -/
def atPosition (ctx : Context) (position : List Nat) : Context :=
  ctx.atDepth (ctx.depth + position.length)

/-- The invocation for an entry of the tree, with what the arguments came to. -/
def invocation (ctx : Context) (cameTo : List Nat → Value) (entry : List Nat × Call) :
    Invocation where
  name := entry.2.name
  args := entry.2.args.mapIdx fun i _ => cameTo (entry.1 ++ [i])
  context := (ctx.atPosition entry.1).deeper

/-- The run of a value follows its tree: each node comes to the value at its position, and the known
functions are invoked in the order of the tree, each with what its arguments came to. -/
structure Ran (ctx : Context) (value : Value) (history : History) (cameTo : List Nat → Value) :
    Prop where
  came : ∀ position node, value.node? ctx.registry position = some node →
    node.ComesTo (ctx.atPosition position) (fun i => cameTo (position ++ [i])) (cameTo position)
  invocations : history.invocations
    = (value.calls ctx.registry).map (ctx.invocation cameTo)

variable {ctx : Context} {value found : Value} {history : History}

theorem atPosition_nil (ctx : Context) : ctx.atPosition [] = ctx := by
  have hdepth : ctx.depth + (([] : List Nat).length : Int) = ctx.depth := Int.add_zero _
  rw [atPosition, hdepth]
  rfl

theorem atPosition_cons (ctx : Context) (i : Nat) (rest : List Nat) :
    ctx.atPosition (i :: rest) = ctx.deeper.atPosition rest := by
  have hdepth : ctx.depth + ((i :: rest).length : Int) = ctx.deeper.depth + rest.length := by
    change ctx.depth + ((rest.length + 1 : Nat) : Int) = ctx.depth + 1 + rest.length
    omega
  rw [atPosition, hdepth]
  rfl

theorem atPosition_concat (ctx : Context) (position : List Nat) (i : Nat) :
    ctx.atPosition (position ++ [i]) = (ctx.atPosition position).deeper := by
  have hdepth : ctx.depth + ((position ++ [i]).length : Int) = ctx.depth + position.length + 1 := by
    rw [List.length_append, List.length_singleton]
    omega
  rw [atPosition, hdepth]
  rfl

/-- Where there is nothing below a value, its run follows the tree. -/
theorem ran_leaf (hleaf : value.IsLeaf ctx.registry) (hhistory : history.invocations = [])
    (hcomes : value.ComesTo ctx (fun _ => found) found) :
    ctx.Ran value history fun _ => found := by
  constructor
  · intro position node hnode
    cases position with
    | nil =>
      obtain rfl : value = node := Option.some.inj hnode
      rw [atPosition_nil]
      exact hcomes
    | cons i rest =>
      rw [Value.node?_cons_of_leaf hleaf] at hnode
      cases hnode
  · rw [Value.calls_of_leaf hleaf, hhistory]
    rfl

/-- The runs of arguments, one after another, follow the trees of the arguments. -/
theorem ran_arguments {args values : List Value} {taken : Nat}
    (h : Eval.EachRan ctx.resolve taken args values history)
    (ih : ∀ arg ∈ args, ∀ taken found history, ctx.resolve arg taken = ⟨.ok found, history⟩ →
      ∃ cameTo, cameTo [] = found ∧ ctx.Ran arg history cameTo) :
    ∃ cameTo : Nat → List Nat → Value, values = args.mapIdx (fun i _ => cameTo i []) ∧
      (∀ i arg, args[i]? = some arg → ∃ history, ctx.Ran arg history (cameTo i)) ∧
      history.invocations = (args.mapIdx fun i arg =>
        (arg.calls ctx.registry).map (ctx.invocation (cameTo i))).flatten := by
  induction h with
  | nil => exact ⟨fun _ _ => .undefined, rfl, nofun, rfl⟩
  | @cons taken x rest a as first later hfirst _ hrest =>
    rw [List.forall_mem_cons] at ih
    obtain ⟨cameFirst, rfl, hran⟩ := ih.1 taken a first hfirst
    obtain ⟨cameTo, rfl, hrans, hlater⟩ := hrest ih.2
    refine ⟨fun i => Nat.casesOn i cameFirst cameTo, ?_, ?_, ?_⟩
    · rw [List.mapIdx_cons]
      rfl
    · rintro (_ | i) arg harg
      · obtain rfl : x = arg := Option.some.inj harg
        exact ⟨first, hran⟩
      · exact hrans i arg harg
    · rw [List.mapIdx_cons, List.flatten_cons, History.invocations_append, hran.invocations, hlater]
      rfl

/-- The invocations for the entries of an argument are those for the entries of the call. -/
theorem invocation_inArgument (ctx : Context) (cameTo : List Nat → Value) (i : Nat)
    (entry : List Nat × Call) :
    ctx.invocation cameTo (Value.inArgument i entry)
      = ctx.deeper.invocation (fun rest => cameTo (i :: rest)) entry := by
  rw [invocation, invocation, Value.inArgument, atPosition_cons]
  rfl

/-- Once the arguments have run and the function was invoked, the run of the call follows its
tree. -/
theorem ran_known {c : Call} {f : HostFunction} {cameTo : Nat → List Nat → Value} {taken : Nat}
    (hcall : Descriptor.ofValue value = .call c) (hf : ctx.registry.get? c.name = some f)
    (hrans : ∀ i arg, c.args[i]? = some arg → ∃ history, ctx.deeper.Ran arg history (cameTo i))
    (hhistory : history.invocations = (c.args.mapIdx fun i arg =>
        (arg.calls ctx.registry).map (ctx.deeper.invocation (cameTo i))).flatten ++
      [⟨c.name, c.args.mapIdx (fun i _ => cameTo i []), ctx.deeper⟩])
    (hinvoke : (ctx.deeper.invoke c.name f (c.args.mapIdx fun i _ => cameTo i []) taken).result
      = .ok found) :
    ctx.Ran value history fun | [] => found | i :: rest => cameTo i rest := by
  have hknown := Registry.contains_of_get? hf
  constructor
  · intro position node hnode
    cases position with
    | nil =>
      obtain rfl : value = node := Option.some.inj hnode
      rw [atPosition_nil]
      exact .known hcall hf hinvoke
    | cons i rest =>
      rw [Value.node?_cons_of_known hcall hknown, Option.bind_eq_some_iff] at hnode
      obtain ⟨arg, harg, hnode⟩ := hnode
      obtain ⟨_, hran⟩ := hrans i arg harg
      rw [atPosition_cons]
      exact hran.came rest node hnode
  · rw [Value.calls_of_known hcall hknown, List.map_append, List.map_flatten, hhistory]
    congr 2
    · refine List.ext_getElem? fun i => ?_
      rw [List.getElem?_map, List.getElem?_mapIdx, List.getElem?_mapIdx, Option.map_map]
      congr 1
      funext arg
      simp only [Function.comp_apply, List.map_map, Function.comp_def, invocation_inArgument]
    · rw [invocation, atPosition_nil]
      rfl

/-- A run of a value that describes a call of an unknown function. -/
theorem history_of_unknown {c : Call} {taken : Nat}
    (hf : ctx.registry.get? c.name = none) (h : ctx.call c taken = ⟨.ok found, history⟩) :
    found = .undefined ∧ history.invocations = [] := by
  rcases Int.lt_or_le ctx.depth ctx.limit with hroom | hroom
  · rw [ctx.call_of_unknown hroom hf] at h
    cases h
    exact ⟨rfl, rfl⟩
  · rw [ctx.call_of_le hroom] at h
    cases h

/-- A run of a value that describes a call of a known function: its arguments come to values one
after another, and then the function is invoked with them. -/
theorem history_of_known {c : Call} {f : HostFunction} {taken : Nat}
    (hf : ctx.registry.get? c.name = some f) (h : ctx.call c taken = ⟨.ok found, history⟩) :
    ∃ values first later taken', Eval.EachRan ctx.deeper.resolve taken c.args values first ∧
      ctx.deeper.invoke c.name f values taken' = ⟨.ok found, later⟩ ∧
      history.invocations = first.invocations ++ later.invocations := by
  rcases Int.lt_or_le ctx.depth ctx.limit with hroom | hroom
  · rw [ctx.call_of_known hroom hf] at h
    obtain ⟨_, sought, after, hsought, hafter, rfl⟩ := Eval.of_bind_eq_ok h
    cases hsought
    obtain ⟨values, first, later, hvalues, hlater, rfl⟩ := Eval.of_bind_eq_ok hafter
    refine ⟨values, first, later, _, Eval.eachRan_of_mapM hvalues, hlater, ?_⟩
    exact History.invocations_append first later
  · rw [ctx.call_of_le hroom] at h
    cases h

/-- Every run that comes to a value follows its tree, if the functions in it ask for nothing. -/
theorem exists_ran {taken : Nat} (h : ctx.resolve value taken = ⟨.ok found, history⟩)
    (hasks : value.AsksNothing ctx.registry) :
    ∃ cameTo, cameTo [] = found ∧ ctx.Ran value history cameTo := by
  induction value using Value.descriptor_induction generalizing ctx taken found history with
  | step value ih =>
    have hleaf (hnone : ∀ c, Descriptor.ofValue value ≠ .call c) : value.IsLeaf ctx.registry :=
      fun c hcall => absurd hcall (hnone c)
    rw [resolve_eq] at h
    cases hvalue : Descriptor.ofValue value with
    | literal content =>
      rw [hvalue] at h
      obtain rfl := Descriptor.ofValue_eq_literal hvalue
      cases h
      exact ⟨_, rfl, ran_leaf (hleaf (by rw [hvalue]; nofun)) rfl (.literal hvalue)⟩
    | binding path =>
      rw [hvalue] at h
      change Eval.ofExcept (Path.resolve ctx.dataModel ctx.scope path) taken = _ at h
      cases hpath : Path.resolve ctx.dataModel ctx.scope path with
      | error fault =>
        rw [hpath] at h
        cases h
      | ok target =>
        rw [hpath] at h
        cases h
        exact ⟨_, rfl, ran_leaf (hleaf (by rw [hvalue]; nofun)) rfl (.binding hvalue hpath)⟩
    | call c =>
      rw [hvalue] at h
      cases hf : ctx.registry.get? c.name with
      | none =>
        obtain ⟨rfl, hhistory⟩ := history_of_unknown hf h
        refine ⟨_, rfl, ran_leaf (fun c' hcall => ?_) hhistory (.unknown hvalue hf)⟩
        obtain rfl : c = c' := Descriptor.call.inj (hvalue.symm.trans hcall)
        exact Registry.contains_of_get?_eq_none hf
      | some f =>
        obtain ⟨values, first, later, taken', hargs, hinvoke, hhistory⟩ := history_of_known hf h
        obtain ⟨cameTo, rfl, hrans, hfirst⟩ := ran_arguments hargs fun arg harg _ _ _ hran =>
          ih c hvalue arg harg hran (hasks.argument hvalue (Registry.contains_of_get? hf) harg)
        have hhere : value.node? ctx.registry [] = some value := rfl
        have hquiet : f.AsksNothing := hasks.at_node hhere hvalue hf
        have hinvoked := hquiet.invocations_invoke ctx.deeper c.name
          (c.args.mapIdx fun i _ => cameTo i []) taken'
        rw [hinvoke] at hinvoked
        rw [hfirst, hinvoked] at hhistory
        exact ⟨_, rfl, ran_known hvalue hf hrans hhistory (congrArg Outcome.result hinvoke)⟩

end Context

/-! ## Nothing else is resolved -/

namespace Task

variable {ctx c c' : Context} {value : Value} {t t' : Task}

/-- The task resolves a node of the tree, or evaluates the call that the node describes, in the
context at its position. -/
inductive IsAtNode (ctx : Context) (value : Value) : Context → Task → Prop
  | resolve {position : List Nat} {node : Value} :
      value.node? ctx.registry position = some node →
      IsAtNode ctx value (ctx.atPosition position) (.resolve node)
  | call {position : List Nat} {node : Value} {c : Call} :
      value.node? ctx.registry position = some node → Descriptor.ofValue node = .call c →
      IsAtNode ctx value (ctx.atPosition position) (.call c)

/-- At a node, nothing is started but what is at the node too, or at an argument below it. -/
theorem IsAtNode.of_starts (h : IsAtNode ctx value c t)
    (hasks : value.AsksNothing ctx.registry) (hstarts : (t.course c).Starts c' t') :
    IsAtNode ctx value c' t' := by
  cases h with
  | @resolve position node hnode =>
    rw [course] at hstarts
    split at hstarts
    · cases hstarts
    · exact absurd hstarts (Course.not_starts_ofExcept _)
    · next call hcall =>
      cases hstarts with
      | here => exact .call hnode hcall
      | afterStart found hstarts => cases hstarts
  | @call position node call hnode hcall =>
    rw [course] at hstarts
    obtain ⟨-, hlooked⟩ := Course.starts_descend hstarts
    cases hlooked with
    | afterEmit hlooked =>
      cases hf : ctx.registry.get? call.name with
      | none =>
        have hf' : (ctx.atPosition position).deeper.registry.get? call.name = none := hf
        rw [hf'] at hlooked
        cases hlooked with
        | afterEmit hdone => cases hdone
      | some f =>
        have hf' : (ctx.atPosition position).deeper.registry.get? call.name = some f := hf
        rw [hf'] at hlooked
        rcases Course.starts_collect hlooked with ⟨rfl, htask⟩ | ⟨values, hinvoked⟩
        · obtain ⟨arg, harg, rfl⟩ := List.mem_map.1 htask
          obtain ⟨i, hi⟩ := List.getElem?_of_mem harg
          have hbelow : value.node? ctx.registry (position ++ [i]) = some arg := by
            rw [Value.node?_append, hnode, Option.bind_some,
              Value.node?_cons_of_known hcall (Registry.contains_of_get? hf), hi]
            rfl
          rw [← ctx.atPosition_concat position i]
          exact .resolve hbelow
        · have hquiet := hasks.at_node hnode hcall hf
          cases hinvoked with
          | afterEmit hran => exact absurd hran (hquiet _ _).not_starts

/-- The run of a value reaches nothing but what is at the nodes of its tree. -/
theorem IsAtNode.of_reaches {taken k : Nat} (h : IsAtNode ctx value c t)
    (hasks : value.AsksNothing ctx.registry) (hreaches : Reaches c taken t c' k t') :
    IsAtNode ctx value c' t' := by
  induction hreaches with
  | self => exact h
  | through hpath hbegins _ ih => exact ih (h.of_starts hasks (hpath.starts hbegins))

end Task

/-- **The order of described calls.** A run that comes to a value, with functions that ask the
engine for nothing, follows the tree of what is resolved: there is a value for each position such
that each node comes to its value from those of its arguments, and the invocations are those of the
calls of known functions in the tree, each with the values of its arguments, one level below as many
calls as stand above it. The calls are those of all nodes that describe one, each comes once, from
the inside out and left to right; and nothing but the nodes of the tree is resolved. -/
theorem calls_run_inside_out (ctx : Context) {value found : Value} {taken : Nat}
    (hfound : (ctx.resolve value taken).result = .ok found)
    (hasks : value.AsksNothing ctx.registry) :
    (∃ cameTo : List Nat → Value, cameTo [] = found ∧
      (∀ position node, value.node? ctx.registry position = some node →
        node.ComesTo (ctx.atDepth (ctx.depth + position.length))
          (fun i => cameTo (position ++ [i])) (cameTo position)) ∧
      (ctx.resolve value taken).history.invocations =
        (value.calls ctx.registry).map fun (position, c) =>
          ⟨c.name, c.args.mapIdx fun i _ => cameTo (position ++ [i]),
            ctx.atDepth (ctx.depth + position.length + 1)⟩) ∧
    (∀ position c, (position, c) ∈ value.calls ctx.registry ↔
      ∃ node, value.node? ctx.registry position = some node ∧
        Descriptor.ofValue node = .call c ∧ ctx.registry.contains c.name = true) ∧
    ((value.calls ctx.registry).map Prod.fst).Nodup ∧
    (value.calls ctx.registry).Pairwise (fun entry entry' => Value.InsideOut entry.1 entry'.1) ∧
    ∀ c k node, Task.Reaches ctx taken (.resolve value) c k (.resolve node) →
      ∃ position, value.node? ctx.registry position = some node ∧
        c = ctx.atDepth (ctx.depth + position.length) := by
  refine ⟨?_, fun _ _ => Value.mem_calls_iff, Value.nodup_calls _ _, Value.pairwise_calls _ _, ?_⟩
  · have hrun : ctx.resolve value taken = ⟨.ok found, (ctx.resolve value taken).history⟩ := by
      rw [← hfound]
    obtain ⟨cameTo, hroot, hran⟩ := Context.exists_ran hrun hasks
    exact ⟨cameTo, hroot, hran.came, hran.invocations⟩
  · intro c k node hreaches
    have hroot : Task.IsAtNode ctx value ctx (.resolve value) := by
      have hself : Task.IsAtNode ctx value (ctx.atPosition []) (.resolve value) := .resolve rfl
      rwa [ctx.atPosition_nil] at hself
    cases hroot.of_reaches hasks hreaches with
    | resolve hnode => exact ⟨_, hnode, rfl⟩

/-- A place with a function of pairs, and with recipes for a pair as data and from a function. -/
def parcelContext : Context :=
  .root (.map [(.str "draft", .callTo "pair" [.str "a"])]) .null
    ⟨[("pair", Stock.function "pair" .args),
      ("recipe", Stock.function "recipe" (.const (.callTo "pair" [])))], by decide⟩
    Settings.standard ⟨⟨2026, 1, 25⟩, 12, 0, 0, 0, none⟩

/-- A pair of recipes from all sides: from a function, from the data, in a list, and below a call of
an unknown function. -/
def parcel : Value :=
  .callTo "pair" [.callTo "recipe" [.str "b"], Descriptor.pathTo "/draft",
    .list [.callTo "pair" []], .callTo "absent" [.callTo "recipe" []]]

theorem calls_parcel : parcel.calls parcelContext.registry =
    [([0], ⟨"recipe", [.str "b"], none⟩),
      ([], ⟨"pair", [.callTo "recipe" [.str "b"], Descriptor.pathTo "/draft",
        .list [.callTo "pair" []], .callTo "absent" [.callTo "recipe" []]], none⟩)] := by
  have hliteral {value : Value} (h : ∀ c, Descriptor.ofValue value ≠ .call c) :
      value.calls parcelContext.registry = [] :=
    Value.calls_of_leaf fun c hcall => absurd hcall (h c)
  have habsent : (Value.callTo "absent" [.callTo "recipe" []]).calls parcelContext.registry = [] :=
    Value.calls_of_leaf fun c hcall => by
      cases hcall
      rfl
  have hknown (name : String) (args : List Value)
      (h : parcelContext.registry.contains name = true) :
      (Value.callTo name args).calls parcelContext.registry = _ :=
    Value.calls_of_known (Descriptor.ofValue_callTo name args) h
  have htext : (Value.str "b").calls parcelContext.registry = [] := hliteral nofun
  have hdraft : (Descriptor.pathTo "/draft").calls parcelContext.registry = [] := hliteral nofun
  have hlist : (Value.list [.callTo "pair" []]).calls parcelContext.registry = [] := hliteral nofun
  rw [parcel, hknown "pair" _ rfl]
  simp only [List.mapIdx_cons, List.mapIdx_nil, hknown "recipe" _ rfl, htext, hdraft, hlist,
    habsent]
  rfl

/-- The recipes are passed on as they are: the one function that is called below the pair comes
first, and nothing else is invoked. -/
theorem calls_run_inside_out_parcel :
    (∃ found, (parcelContext.resolve parcel 0).result = .ok found) ∧
    parcel.AsksNothing parcelContext.registry ∧
    (parcelContext.resolve parcel 0).history.invocations =
      [⟨"recipe", [.str "b"], parcelContext.atDepth 2⟩,
        ⟨"pair", [.callTo "pair" [], .callTo "pair" [.str "a"], .list [.callTo "pair" []],
          .undefined], parcelContext.atDepth 1⟩] ∧
    ∃ cameTo : List Nat → Value, (parcelContext.resolve parcel 0).history.invocations =
      [⟨"recipe", [cameTo [0, 0]], parcelContext.atDepth 2⟩,
        ⟨"pair", [cameTo [0], cameTo [1], cameTo [2], cameTo [3]], parcelContext.atDepth 1⟩] := by
  have hfound : (parcelContext.resolve parcel 0).result = .ok (.list [.callTo "pair" [],
      .callTo "pair" [.str "a"], .list [.callTo "pair" []], .undefined]) := rfl
  have hasks : parcel.AsksNothing parcelContext.registry := by
    rw [Value.AsksNothing, calls_parcel, List.forall_mem_cons, List.forall_mem_singleton]
    constructor
    · intro f hf
      cases hf
      exact fun args view => .done _
    · intro f hf
      cases hf
      exact fun args view => .done _
  refine ⟨⟨_, hfound⟩, hasks, rfl, ?_⟩
  obtain ⟨⟨cameTo, -, -, hinvocations⟩, -⟩ := calls_run_inside_out parcelContext hfound hasks
  rw [calls_parcel] at hinvocations
  exact ⟨cameTo, hinvocations⟩

end LiveValue
