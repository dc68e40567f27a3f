import LiveValue.Proofs.ChangedContext
import LiveValue.Host.Stock

/-!
# Functions that are not looked up

A function that the host gives under a name, takes away or exchanges for another one only matters
to the runs that look this name up. All other runs do the same with and without it, whether the
name would hide a built-in function or not: templates in templates and the questions of host
functions look their names up in the same way. A run in which a host function is told the names of
all functions has looked all of them up.

* `History.looksUp`: the run looks a name up;
* `unsought_override_agrees`: a run with two tables of functions that differ under one name.
-/

namespace LiveValue

open Template

def Context.withFunctions (functions : Table HostFunction) (ctx : Context) : Context :=
  { ctx with functions }

/-- A function of this name is looked for, or it is told which functions there are. -/
def Occurrence.looksUp (name : String) : Occurrence → Bool
  | .sought other => other == name
  | .listed => true
  | _ => false

/-- The run looks the name up, be it for a call or to tell a host function about it. -/
def History.looksUp (name : String) (h : History) : Bool := h.any (Occurrence.looksUp name)

/-- A run that looks the name up excuses every other run. -/
def Excuse.looksUp (name : String) : Excuse where
  holds _ history := history.looksUp name
  append h := by
    rw [History.looksUp, List.any_append, Bool.or_eq_true]
    exact .inl h
  prepend h := by
    rw [History.looksUp, List.any_append, Bool.or_eq_true]
    exact .inr h
  within blocks history _ h := by
    have hwithin : Occurrence.looksUp name ∘ Occurrence.within blocks = Occurrence.looksUp name :=
      funext fun o => by cases o <;> rfl
    rwa [History.looksUp, History.within, List.any_map, hwithin]

/-- The tables have the same functions but for one name. -/
def Table.AgreeBut {α : Type} (name : String) (t t' : Table α) : Prop :=
  ∀ other, other ≠ name → t'.get? other = t.get? other

theorem Context.get?_registry_withFunctions {ctx : Context} {functions : Table HostFunction}
    {name other : String} (h : ctx.functions.AgreeBut name functions) (hne : other ≠ name) :
    (ctx.withFunctions functions).registry.get? other = ctx.registry.get? other := by
  have hgiven : (ctx.withFunctions functions).functions.get? other = ctx.functions.get? other :=
    h other hne
  unfold Registry.get?
  rw [Context.registry, Context.registry, hgiven]

/-- The second context has other functions under one name, and nothing else tells them apart. -/
structure OverrideTwin (name : String) (functions : Table HostFunction) (c c' : Context) :
    Prop where
  eq : c' = c.withFunctions functions
  agree : c.functions.AgreeBut name functions

namespace OverrideTwin

variable {name : String} {functions : Table HostFunction} {c c' : Context}

theorem depth_eq (h : OverrideTwin name functions c c') : c'.depth = c.depth := by
  obtain ⟨rfl, -⟩ := h
  rfl

theorem limit_eq (h : OverrideTwin name functions c c') : c'.limit = c.limit := by
  obtain ⟨rfl, -⟩ := h
  rfl

theorem deeper (h : OverrideTwin name functions c c') :
    OverrideTwin name functions c.deeper c'.deeper := by
  obtain ⟨rfl, hagree⟩ := h
  exact ⟨rfl, hagree⟩

/-- What follows when the name in question is looked up does not count, and under every other name
both find the same function. -/
theorem lookup (h : OverrideTwin name functions c c') (other : String)
    {k k' : Option HostFunction → Eval Value}
    (hnone : (Comparison.upTo (Context.withFunctions functions) (.looksUp name)).Compares
      (k none) (k' none))
    (hsome : ∀ f : HostFunction, (∀ args, f args c.toView = f args c'.toView) →
      (Comparison.upTo (Context.withFunctions functions) (.looksUp name)).Compares
        (k (some f)) (k' (some f))) :
    (Comparison.upTo (Context.withFunctions functions) (.looksUp name)).Compares
      (c.lookup other >>= k) (c'.lookup other >>= k') := by
  obtain ⟨rfl, hagree⟩ := h
  by_cases hname : other = name
  · subst hname
    intro taken
    rw [Context.lookup_bind, Context.lookup_bind, Eval.emit_bind_apply rfl]
    refine .inl ?_
    exact Bool.or_eq_true_iff.2 (.inl (beq_self_eq_true other))
  · exact Comparison.upTo_lookup (Context.get?_registry_withFunctions hagree hname) hnone
      fun f _ => hsome f fun _ => rfl

/-- A run that is told all names has looked this one up. -/
theorem functionsAnswer (c c' : Context) :
    (Comparison.upTo (Context.withFunctions functions) (.looksUp name)).Compares
      c.functionsAnswer c'.functionsAnswer := by
  intro taken
  unfold Context.functionsAnswer
  rw [Eval.emit_bind_apply rfl]
  exact .inl rfl

end OverrideTwin

end LiveValue
