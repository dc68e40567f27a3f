import LiveValue.Proofs.TokenExpansion

/-!
# Simulations

Many properties of the engine compare what it does in one context with what it does in another:
with other settings, at another depth, with other functions. None of them has to look at the whole
engine again. A `Simulation` says which contexts belong together and which evaluations do, and
shows it for the few steps at which the engine looks at its context; then everything that the engine
does in the one context belongs to what it does in the other.

* `Simulation.evaluates`, `Simulation.resolves`, `Simulation.argues`, `Simulation.formats`: the
  public operations on two contexts that belong together.
-/

namespace LiveValue

namespace Template

/-- A placeholder opens at this position of the template. -/
def OpensAt (template : String) (position : Nat) : Prop :=
  ['$', '{'] <+: template.toList.drop position

end Template

open Template

/-! ## Steps that look at the context -/

namespace Context

theorem descend_bind_of_lt {α : Type} {ctx : Context} (h : ctx.depth < ctx.limit)
    (expression : Option String) (k : Context → Eval α) :
    ctx.descend expression >>= k = k ctx.deeper := by
  rw [descend_of_lt h, pure_bind]

theorem descend_bind_of_le {α : Type} {ctx : Context} (h : ctx.limit ≤ ctx.depth)
    (expression : Option String) (k : Context → Eval α) :
    ctx.descend expression >>= k = ctx.refuse expression := by
  rw [descend_of_le h, refuse_bind]

theorem lookup_bind {α : Type} (ctx : Context) (name : String)
    (k : Option HostFunction → Eval α) :
    ctx.lookup name >>= k = (do
      Eval.emit (.sought name)
      match ctx.registry.get? name with
      | some f => k (some f)
      | none => do
          Eval.log (.unknownFunction name)
          k none) := by
  unfold lookup
  cases ctx.registry.get? name <;> simp only [bind_assoc, pure_bind]

end Context

/-! ## Evaluations that belong together -/

/-- Pairs of evaluations to which belongs what is put together from such pairs. -/
structure Congruence where
  sim : {α : Type} → Eval α → Eval α → Prop
  sim_pure {α : Type} (a : α) : sim (pure a : Eval α) (pure a)
  sim_fail {α : Type} (fault : Fault) : sim (Eval.fail fault : Eval α) (Eval.fail fault)
  sim_bind {α β : Type} {m m' : Eval α} {f f' : α → Eval β} :
    sim m m' → (∀ a, sim (f a) (f' a)) → sim (m >>= f) (m' >>= f')

namespace Congruence

variable (C : Congruence)

theorem sim_ofExcept {α : Type} (result : Except Fault α) :
    C.sim (Eval.ofExcept result) (Eval.ofExcept result) := by
  cases result with
  | ok a => exact C.sim_pure a
  | error fault => exact C.sim_fail fault

theorem sim_mapM {α β : Type} {g g' : β → Eval α} {items : List β}
    (h : ∀ x ∈ items, C.sim (g x) (g' x)) : C.sim (items.mapM g) (items.mapM g') := by
  induction items with
  | nil =>
    rw [List.mapM_nil, List.mapM_nil]
    exact C.sim_pure _
  | cons x rest ih =>
    rw [List.mapM_cons, List.mapM_cons]
    refine C.sim_bind (h x List.mem_cons_self) fun a => ?_
    exact C.sim_bind (ih fun y hy => h y (List.mem_cons_of_mem _ hy)) fun as => C.sim_pure _

end Congruence

/-! ## Simulations -/

/-- What two runs of the engine have to agree on, step by step.

* `near`: contexts that belong together;
* `sim`: evaluations that belong together;
* `admits`: the programs that host functions may run in such contexts.

A step that looks at the context comes with what follows it, so that one of the two runs may go
another way there. -/
structure Simulation extends Congruence where
  near : Context → Context → Prop
  admits : Program → Prop
  sim_data {c c' : Context} (path : String) : near c c' → sim (c.data path) (c'.data path)
  sim_missBrace {c c' : Context} {template : String} {position : Nat} :
    near c c' → OpensAt template position →
    sim (Engine.missBrace c template position) (Engine.missBrace c' template position)
  sim_descend {c c' : Context} (expression : Option String) {k k' : Context → Eval Value} :
    near c c' →
    (c.depth < c.limit → near c.deeper c'.deeper → sim (k c.deeper) (k' c'.deeper)) →
    sim (c.descend expression >>= k) (c'.descend expression >>= k')
  sim_lookup {c c' : Context} (name : String) {k k' : Option HostFunction → Eval Value} :
    near c c' → sim (k none) (k' none) →
    (∀ f : HostFunction,
      (∀ args, f args c.toView = f args c'.toView ∧ admits (f args c.toView)) →
      sim (k (some f)) (k' (some f))) →
    sim (c.lookup name >>= k) (c'.lookup name >>= k')
  sim_functions {c c' : Context} : near c c' → sim c.functionsAnswer c'.functionsAnswer
  sim_invoked {c c' : Context} (name : String) (args : List Value) :
    near c c' → sim (Eval.emit (.invoked ⟨name, args, c⟩)) (Eval.emit (.invoked ⟨name, args, c'⟩))
  near_placed {c c' : Context} (place : Place) : near c c' → near (c.placed place) (c'.placed place)
  admits_ask {place : Place} {request : Request} {next : Except Fault Value → Program} :
    admits (.ask place request next) → ∀ result, admits (next result)
  sim_ask {c c' : Context} {place : Place} {request : Request}
    {next : Except Fault Value → Program} {m m' : Eval Value} :
    admits (.ask place request next) → sim m m' →
    (∀ result, sim (c.engine.run c (next result)) (c'.engine.run c' (next result))) →
    sim ((m.within place.blocks).attempt >>= fun result => c.engine.run c (next result))
      ((m'.within place.blocks).attempt >>= fun result => c'.engine.run c' (next result))
  admits_record {note : Note} {next : Nat → Program} :
    admits (.record note next) → ∀ taken, admits (next taken)
  sim_record {note : Note} {next : Nat → Program} {k k' : Program → Eval Value} :
    admits (.record note next) → (∀ taken, sim (k (next taken)) (k' (next taken))) →
    sim (Eval.note note >>= fun taken => k (next taken))
      (Eval.note note >>= fun taken => k' (next taken))

namespace Simulation

variable {S : Simulation} {c c' : Context}

/-! ## What follows from expressions and calls -/

variable (S) in
/-- Contexts that belong together and in which expressions and calls are known to do so, too. -/
structure Ready (c c' : Context) : Prop where
  near : S.near c c'
  evaluate : ∀ text, S.sim (c.evaluate text) (c'.evaluate text)
  call : ∀ call, S.sim (c.call call) (c'.call call)

namespace Ready

theorem resolve (h : S.Ready c c') (value : Value) :
    S.sim (c.resolve value) (c'.resolve value) := by
  rw [Context.resolve_eq, Context.resolve_eq]
  cases Descriptor.ofValue value with
  | literal value => exact S.sim_pure value
  | binding path => exact S.sim_data path h.near
  | call call => exact h.call call

theorem argument (h : S.Ready c c') (raw : String) : S.sim (c.argument raw) (c'.argument raw) := by
  unfold Context.argument Engine.argument
  cases Argument.read raw with
  | placeholder body => exact h.evaluate body
  | literal text => exact S.sim_ofExcept _
  | reference text =>
    refine S.sim_bind (h.evaluate text) fun found => ?_
    split
    · exact S.sim_ofExcept _
    · exact S.sim_pure found

theorem render (h : S.Ready c c') {template : String} {position : Nat} {token : Token}
    (ht : ∀ body closed, token = .placeholder body closed → OpensAt template position) :
    S.sim (c.engine.render c template position token)
      (c'.engine.render c' template position token) := by
  cases token with
  | literal char => exact S.sim_pure _
  | opening => exact S.sim_pure _
  | placeholder body closed =>
    have shown := S.sim_bind (h.evaluate (String.ofList body)) fun value =>
      S.sim_ofExcept value.text
    cases closed with
    | true => exact shown
    | false => exact S.sim_bind (S.sim_missBrace h.near (ht body false rfl)) fun _ => shown

/-- Each token is expanded at its own place of the template, which holds its source. -/
theorem expand (h : S.Ready c c') {template : String} {position : Nat} {tokens : List Token}
    (hsource : template.toList.drop position = tokens.flatMap Token.source) :
    S.sim (c.engine.expand c template position tokens)
      (c'.engine.expand c' template position tokens) := by
  induction tokens generalizing position with
  | nil => exact S.sim_pure _
  | cons token rest ih =>
    have hrest : template.toList.drop (position + token.source.length)
        = rest.flatMap Token.source := by
      rw [← List.drop_drop, hsource, List.flatMap_cons, List.drop_left]
    refine S.sim_bind (h.render ?_) fun first => ?_
    · rintro body closed rfl
      rw [OpensAt, hsource]
      exact ⟨_, rfl⟩
    · exact S.sim_bind (ih hrest) fun others => S.sim_pure _

theorem format (h : S.Ready c c') (template : String) :
    S.sim (c.format template) (c'.format template) := by
  rw [Context.format, Context.format, Engine.format_eq_expand, Engine.format_eq_expand]
  refine S.sim_bind (h.expand ?_) fun shown => S.sim_pure _
  rw [List.drop_zero, Token.flatMap_source_tokenize]

theorem answer (h : S.Ready c c') (request : Request) :
    S.sim (c.engine.answer c request) (c'.engine.answer c' request) := by
  cases request with
  | format template => exact S.sim_bind (h.format template) fun text => S.sim_pure _
  | resolve descriptor => exact h.resolve descriptor
  | evaluate expression => exact h.evaluate expression
  | lookup name => exact S.sim_lookup name h.near (S.sim_pure _) fun f _ => S.sim_pure _
  | functions => exact S.sim_functions h.near

end Ready

theorem runs (h : ∀ place, S.Ready (c.placed place) (c'.placed place)) {program : Program}
    (hp : S.admits program) : S.sim (c.engine.run c program) (c'.engine.run c' program) := by
  induction program with
  | done value => exact S.sim_pure value
  | fail fault => exact S.sim_fail fault
  | ask place request next ih =>
    rw [Context.run_ask, Context.run_ask]
    exact S.sim_ask hp ((h place).answer request) fun result => ih result (S.admits_ask hp result)
  | record note next ih =>
    exact S.sim_record hp fun taken => ih taken (S.admits_record hp taken)

/-! ## Everything that the engine does -/

/-- Expressions and calls go down one level at a time, and both contexts go down together. -/
theorem ready (h : S.near c c') : S.Ready c c' := by
  -- by induction on the levels that the first context has left
  obtain ⟨levels, hlevels⟩ : ∃ levels, c.remaining = levels := ⟨_, rfl⟩
  induction levels generalizing c c' with
  | zero =>
    have hdeep : ¬c.depth < c.limit := fun hlt => by
      have := c.remaining_deeper hlt
      omega
    refine ⟨h, fun text => ?_, fun call => ?_⟩
    · rw [Context.evaluate_eq, Context.evaluate_eq]
      exact S.sim_descend _ h fun hlt => absurd hlt hdeep
    · rw [Context.call_eq, Context.call_eq]
      exact S.sim_descend _ h fun hlt => absurd hlt hdeep
  | succ levels ih =>
    have hnext (hlt : c.depth < c.limit) (hn : S.near c.deeper c'.deeper) (place : Place) :
        S.Ready (c.deeper.placed place) (c'.deeper.placed place) := by
      have := c.remaining_deeper hlt
      exact ih (S.near_placed place hn) (by rw [Context.remaining_placed]; omega)
    have invoke (hlt : c.depth < c.limit) (hn : S.near c.deeper c'.deeper) (name : String)
        (values : List Value) (f : HostFunction)
        (hf : ∀ args, f args c.deeper.toView = f args c'.deeper.toView ∧
          S.admits (f args c.deeper.toView)) :
        S.sim (c.deeper.invoke name f values) (c'.deeper.invoke name f values) := by
      refine S.sim_bind (S.sim_invoked name values hn) fun _ => ?_
      rw [← (hf values).1]
      exact runs (hnext hlt hn) (hf values).2
    refine ⟨h, fun text => ?_, fun call => ?_⟩
    · rw [Context.evaluate_eq, Context.evaluate_eq]
      refine S.sim_descend _ h fun hlt hn => ?_
      cases Expression.read text.toList with
      | empty => exact S.sim_pure _
      | absolute path => exact S.sim_data path hn
      | relative path => exact S.sim_data path hn
      | call source name args =>
        refine S.sim_bind (S.sim_mapM fun raw _ => (hnext hlt hn .here).argument raw)
          fun values => ?_
        refine S.sim_lookup name hn (S.sim_pure _) fun f hf => ?_
        exact invoke hlt hn name values f hf
    · rw [Context.call_eq, Context.call_eq]
      refine S.sim_descend _ h fun hlt hn => ?_
      refine S.sim_lookup call.name hn (S.sim_pure _) fun f hf => ?_
      refine S.sim_bind (S.sim_mapM fun arg _ => (hnext hlt hn .here).resolve arg) fun values => ?_
      exact invoke hlt hn call.name values f hf

theorem evaluates (h : S.near c c') (text : String) :
    S.sim (c.evaluate text) (c'.evaluate text) :=
  (ready h).evaluate text

theorem resolves (h : S.near c c') (value : Value) :
    S.sim (c.resolve value) (c'.resolve value) :=
  (ready h).resolve value

theorem argues (h : S.near c c') (raw : String) : S.sim (c.argument raw) (c'.argument raw) :=
  (ready h).argument raw

theorem formats (h : S.near c c') (template : String) :
    S.sim (c.format template) (c'.format template) :=
  (ready h).format template

end Simulation

end LiveValue
