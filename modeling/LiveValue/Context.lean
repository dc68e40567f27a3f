import LiveValue.Host.Builtin
import LiveValue.Registry

/-!
# Contexts

The place of one evaluation: what its host functions see, and the functions themselves. Going down
into a call or an expression gives a context one level deeper.
-/

namespace LiveValue

/-- Everything an evaluation reads. -/
structure Context extends View where
  functions : Table HostFunction

namespace Context

/-- The functions that can be called: the given ones over the built-in ones. -/
def registry (ctx : Context) : Registry HostFunction := ⟨ctx.functions, Builtin.table⟩

def limit (ctx : Context) : Int := ctx.settings.maxDepth

def remaining (ctx : Context) : Nat := (ctx.limit - ctx.depth).toNat

def deeper (ctx : Context) : Context := { ctx with depth := ctx.depth + 1 }

/-- The context in which something is asked for from a place. -/
def placed (ctx : Context) (place : Place) : Context :=
  { ctx with
    scope := place.scope.getD ctx.scope
    bound := LogVariables.enterAll place.blocks ctx.bound }

/-- The context of an evaluation that starts from outside, with nothing bound around it. -/
def root (dataModel scope : Value) (functions : Table HostFunction) (settings : Settings)
    (clock : Moment) : Context :=
  { dataModel, scope, settings, depth := 0, clock, bound := .unbound, functions }

theorem remaining_deeper (ctx : Context) (h : ctx.depth < ctx.limit) :
    ctx.deeper.remaining + 1 = ctx.remaining := by
  have : ctx.deeper.limit = ctx.limit := rfl
  have : ctx.deeper.depth = ctx.depth + 1 := rfl
  unfold remaining
  omega

@[simp]
theorem remaining_placed (ctx : Context) (place : Place) :
    (ctx.placed place).remaining = ctx.remaining := rfl

end Context

end LiveValue
