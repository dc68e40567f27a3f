import LiveValue.Proofs.HostFunction
import LiveValue.Proofs.Simulation

/-!
# Invariants of runs

Some properties all runs of the engine have, as long as the host functions do nothing against them.
An `Invariant` is such a property, shown for the few steps that a run is put together from, and a
kind of programs that keep it. Then everything has it that the engine does with such functions.

* `Invariant.simulation`: a run that has the property, beside itself;
* `Invariant.evaluates`, `Invariant.resolves`, `Invariant.argues`, `Invariant.formats`: the public
  operations on a context.
-/

namespace LiveValue

/-- The event says that the limit of the depth was met. -/
def Event.tellsNesting : Event → Bool
  | .nestingExceeded .. => true
  | _ => false

/-- A property of evaluations, and the programs of host functions that keep it. A program keeps it
when it asks for something if what it asks for has the property, and so does whatever it goes on
with. -/
structure Invariant where
  holds : {α : Type} → Eval α → Prop
  admits : Program → Prop
  holds_pure {α : Type} (a : α) : holds (pure a : Eval α)
  holds_fail {α : Type} (fault : Fault) : holds (Eval.fail fault : Eval α)
  holds_bind {α β : Type} {m : Eval α} {f : α → Eval β} :
    holds m → (∀ a, holds (f a)) → holds (m >>= f)
  holds_emit {o : Occurrence} : o.line? = none → holds (Eval.emit o)
  holds_log {event : Event} : event.tellsNesting = false → holds (Eval.log event)
  holds_refuse {α : Type} (ctx : Context) (expression : Option String) :
    holds (ctx.refuse expression : Eval α)
  admits_builtin : Builtin.table.All fun f => ∀ args view, admits (f args view)
  admits_ask {place : Place} {request : Request} {next : Except Fault Value → Program} :
    admits (.ask place request next) → ∀ result, admits (next result)
  holds_ask {ctx : Context} {place : Place} {request : Request}
    {next : Except Fault Value → Program} {m : Eval Value} :
    admits (.ask place request next) → holds m →
    (∀ result, holds (ctx.engine.run ctx (next result))) →
    holds ((m.within place.blocks).attempt >>= fun result => ctx.engine.run ctx (next result))
  admits_record {note : Note} {next : Nat → Program} :
    admits (.record note next) → ∀ taken, admits (next taken)
  holds_record {note : Note} {next : Nat → Program} {k : Program → Eval Value} :
    admits (.record note next) → (∀ taken, holds (k (next taken))) →
    holds (Eval.note note >>= fun taken => k (next taken))

namespace Invariant

variable (I : Invariant)

/-- All functions that the host gave keep the property. -/
def Suits (ctx : Context) : Prop := ctx.functions.All fun f => ∀ args view, I.admits (f args view)

variable {I}

theorem holds_ofExcept {α : Type} (result : Except Fault α) : I.holds (Eval.ofExcept result) := by
  cases result with
  | ok a => exact I.holds_pure a
  | error fault => exact I.holds_fail fault

theorem holds_missBrace (ctx : Context) (template : String) (position : Nat) :
    I.holds (Engine.missBrace ctx template position) := by
  unfold Engine.missBrace
  split
  · exact I.holds_fail _
  · exact I.holds_log rfl

theorem holds_descend {ctx : Context} (expression : Option String) {k : Context → Eval Value}
    (hk : ctx.depth < ctx.limit → I.holds (k ctx.deeper)) :
    I.holds (ctx.descend expression >>= k) := by
  rcases Int.lt_or_le ctx.depth ctx.limit with hlt | hle
  · rw [Context.descend_bind_of_lt hlt]
    exact hk hlt
  · rw [Context.descend_bind_of_le hle]
    exact I.holds_refuse ctx expression

theorem holds_lookup {ctx : Context} (name : String) {k : Option HostFunction → Eval Value}
    (hnone : I.holds (k none))
    (hsome : ∀ f, ctx.registry.get? name = some f → I.holds (k (some f))) :
    I.holds (ctx.lookup name >>= k) := by
  rw [Context.lookup_bind]
  refine I.holds_bind (I.holds_emit rfl) fun _ => ?_
  cases hget : ctx.registry.get? name with
  | none => exact I.holds_bind (I.holds_log rfl) fun _ => hnone
  | some f => exact hsome f hget

variable (I) in
/-- A context belongs to itself, and an evaluation with the property to itself. -/
def simulation : Simulation where
  near c c' := c = c' ∧ I.Suits c
  sim m m' := m = m' ∧ I.holds m
  admits := I.admits
  sim_pure a := ⟨rfl, I.holds_pure a⟩
  sim_fail fault := ⟨rfl, I.holds_fail fault⟩
  sim_bind := by
    rintro α β m _ f f' ⟨rfl, hm⟩ hf
    obtain rfl : f = f' := funext fun a => (hf a).1
    exact ⟨rfl, I.holds_bind hm fun a => (hf a).2⟩
  sim_data := by
    rintro c _ path ⟨rfl, -⟩
    exact ⟨rfl, holds_ofExcept _⟩
  sim_missBrace := by
    rintro c _ template position ⟨rfl, -⟩ -
    exact ⟨rfl, holds_missBrace ..⟩
  sim_descend := by
    rintro c _ expression k k' ⟨rfl, hf⟩ hk
    refine ⟨?_, holds_descend expression fun hlt => (hk hlt ⟨rfl, hf⟩).2⟩
    rcases Int.lt_or_le c.depth c.limit with hlt | hle
    · rw [Context.descend_bind_of_lt hlt, Context.descend_bind_of_lt hlt]
      exact (hk hlt ⟨rfl, hf⟩).1
    · rw [Context.descend_bind_of_le hle, Context.descend_bind_of_le hle]
  sim_lookup := by
    rintro c _ name k k' ⟨rfl, hf⟩ ⟨hnone, hheld⟩ hsome
    have hfound (f : HostFunction) (hget : c.registry.get? name = some f) :=
      hsome f fun args => ⟨rfl, Context.of_get?_registry hf I.admits_builtin hget args c.toView⟩
    refine ⟨?_, holds_lookup name hheld fun f hget => (hfound f hget).2⟩
    rw [Context.lookup_bind, Context.lookup_bind, hnone]
    cases hget : c.registry.get? name with
    | none => rfl
    | some f => exact congrArg _ (funext fun _ => (hfound f hget).1)
  sim_functions := by
    rintro c _ ⟨rfl, -⟩
    exact ⟨rfl, I.holds_bind (I.holds_emit rfl) fun _ => I.holds_pure _⟩
  sim_invoked := by
    rintro c _ name args ⟨rfl, -⟩
    exact ⟨rfl, I.holds_emit rfl⟩
  near_placed := by
    rintro c _ place ⟨rfl, hf⟩
    exact ⟨rfl, hf⟩
  admits_ask := I.admits_ask
  sim_ask := by
    rintro c c' place request next m _ hp ⟨rfl, hm⟩ hk
    exact ⟨congrArg _ (funext fun result => (hk result).1),
      I.holds_ask hp hm fun result => (hk result).2⟩
  admits_record := I.admits_record
  sim_record := by
    intro note next k k' hp hk
    exact ⟨congrArg _ (funext fun taken => (hk taken).1),
      I.holds_record hp fun taken => (hk taken).2⟩

variable {ctx : Context}

theorem ready (h : I.Suits ctx) : I.simulation.Ready ctx ctx := Simulation.ready ⟨rfl, h⟩

theorem evaluates (h : I.Suits ctx) (text : String) : I.holds (ctx.evaluate text) :=
  ((ready h).evaluate text).2

theorem resolves (h : I.Suits ctx) (value : Value) : I.holds (ctx.resolve value) :=
  ((ready h).resolve value).2

theorem argues (h : I.Suits ctx) (raw : String) : I.holds (ctx.argument raw) :=
  ((ready h).argument raw).2

theorem formats (h : I.Suits ctx) (template : String) : I.holds (ctx.format template) :=
  ((ready h).format template).2

end Invariant

end LiveValue
