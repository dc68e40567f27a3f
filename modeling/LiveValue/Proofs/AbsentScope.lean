import LiveValue.Proofs.ChangedContext
import LiveValue.Proofs.HostFunction

/-!
# Without a scope

Where there is no scope, relative paths start at the data model, as they do where the data model is
the scope. Nothing but looking up a path depends on the scope, so an evaluation without a scope and
one in the data model as scope do the same, unless a function looks at its scope.

* `Path.resolve_self`: a single path;
* `absent_scope_agrees`: evaluations as a whole.
-/

namespace LiveValue

open Template

theorem Path.resolve_self (dataModel : Value) (path : String) :
    resolve dataModel dataModel path = resolve dataModel .null path := by
  have hsource : source dataModel dataModel path = dataModel := by
    unfold source
    split
    · rfl
    · rw [ite_self]
  rw [resolve, hsource]
  rfl

/-! ## Contexts that differ in their scopes -/

namespace Context

def inScope (scope : Value) (ctx : Context) : Context := { ctx with scope }

end Context

/-- The contexts differ in nothing but their scopes, and find the same at every path. -/
structure ScopeTwin (c c' : Context) : Prop where
  eq : ∃ scope, c' = c.inScope scope
  data : ∀ path, c'.data path = c.data path
  blind : c.functions.All HostFunction.IgnoresScope

namespace ScopeTwin

variable {c c' : Context}

theorem depth_eq (h : ScopeTwin c c') : c'.depth = c.depth := by
  obtain ⟨⟨scope, rfl⟩, -, -⟩ := h
  rfl

theorem limit_eq (h : ScopeTwin c c') : c'.limit = c.limit := by
  obtain ⟨⟨scope, rfl⟩, -, -⟩ := h
  rfl

theorem deeper (h : ScopeTwin c c') : ScopeTwin c.deeper c'.deeper := by
  obtain ⟨⟨scope, rfl⟩, hdata, hf⟩ := h
  exact ⟨⟨scope, rfl⟩, hdata, hf⟩

theorem lookup (h : ScopeTwin c c') (name : String) {k k' : Option HostFunction → Eval Value}
    (hnone : (Comparison.regardless (Context.inScope .null)).Compares (k none) (k' none))
    (hsome : ∀ f : HostFunction, (∀ args, f args c.toView = f args c'.toView) →
      (Comparison.regardless (Context.inScope .null)).Compares (k (some f)) (k' (some f))) :
    (Comparison.regardless (Context.inScope .null)).Compares
      (c.lookup name >>= k) (c'.lookup name >>= k') := by
  obtain ⟨⟨scope, rfl⟩, -, hf⟩ := h
  refine .lookup (fun _ _ => rfl) rfl hnone fun f hget => hsome f fun args => ?_
  have hblind := Context.of_get?_registry hf Builtin.ignoresScope hget
  exact (hblind args c.toView scope).symm

/-- In a scope that a function asks for, the contexts are the same. -/
theorem placed (h : ScopeTwin c c') (place : Place) :
    ScopeTwin (c.placed place) (c'.placed place) := by
  obtain ⟨⟨old, rfl⟩, hdata, hf⟩ := h
  obtain ⟨scope, blocks⟩ := place
  cases scope with
  | none => exact ⟨⟨old, rfl⟩, hdata, hf⟩
  | some scope => exact ⟨⟨scope, rfl⟩, fun _ => rfl, hf⟩

end ScopeTwin

/-- A context belongs to one that finds the same in another scope. -/
def rescoping : Simulation where
  toCongruence := (Comparison.regardless (Context.inScope .null)).congruence
  near := ScopeTwin
  admits _ := True
  sim_data path h := by
    rw [h.data path]
    exact .refl rfl _
  sim_missBrace h _ := by
    obtain ⟨⟨scope, rfl⟩, -, -⟩ := h
    exact .refl rfl _
  sim_descend expression _ _ h hk :=
    .descend expression (fun _ _ => rfl) h.depth_eq h.limit_eq fun hlt => hk hlt h.deeper
  sim_lookup name _ _ h hnone hsome :=
    h.lookup name hnone fun f hf => hsome f fun args => ⟨hf args, trivial⟩
  sim_functions h := by
    obtain ⟨⟨scope, rfl⟩, -, -⟩ := h
    exact .functions (fun _ _ => rfl) rfl
  sim_invoked name args h := by
    obtain ⟨⟨scope, rfl⟩, -, -⟩ := h
    exact .emit rfl
  near_placed place h := h.placed place
  admits_ask _ _ := trivial
  sim_ask _ h hk := .ask h Comparison.lasting_regardless _ hk
  admits_record _ _ := trivial
  sim_record _ h := .bind (.refl rfl _) h

/-- What a context does without a scope and what it does with the data model as its scope: both come
to the same result, with the same invocations, the scope aside, and the same lines of the log. The
functions may ask for something in another scope, but not look at the one that they are in. -/
theorem absent_scope_agrees (ctx : Context) (hf : ctx.functions.All HostFunction.IgnoresScope)
    (taken : Nat) :
    (∀ template, ((ctx.inScope .null).format template taken).SameRegardless (Context.inScope .null)
      ((ctx.inScope ctx.dataModel).format template taken)) ∧
    (∀ value, ((ctx.inScope .null).resolve value taken).SameRegardless (Context.inScope .null)
      ((ctx.inScope ctx.dataModel).resolve value taken)) ∧
    (∀ expression, ((ctx.inScope .null).evaluate expression taken).SameRegardless
      (Context.inScope .null) ((ctx.inScope ctx.dataModel).evaluate expression taken)) ∧
    (∀ raw, ((ctx.inScope .null).argument raw taken).SameRegardless (Context.inScope .null)
      ((ctx.inScope ctx.dataModel).argument raw taken)) := by
  have hdata : ∀ path, (ctx.inScope ctx.dataModel).data path = (ctx.inScope .null).data path :=
    fun path => congrArg Eval.ofExcept (Path.resolve_self ctx.dataModel path)
  have twins : rescoping.near (ctx.inScope .null) (ctx.inScope ctx.dataModel) :=
    ⟨⟨ctx.dataModel, rfl⟩, hdata, hf⟩
  refine ⟨fun template => ?_, fun value => ?_, fun expression => ?_, fun raw => ?_⟩
  · exact Comparison.sameRegardless (Simulation.formats twins template taken)
  · exact Comparison.sameRegardless (Simulation.resolves twins value taken)
  · exact Comparison.sameRegardless (Simulation.evaluates twins expression taken)
  · exact Comparison.sameRegardless (Simulation.argues twins raw taken)

/-- A data model that holds a template with a relative path, and a function that expands what it is
given. -/
def greetingContext : Context :=
  Context.root (.map [(.str "note", .str "hi $\x7bname\x7d"), (.str "name", .str "Ada")]) .null
    ⟨[("show", Stock.function "show" .format)], List.nodup_singleton "show"⟩ Settings.standard
    ⟨⟨2026, 1, 25⟩, 12, 0, 0, 0, none⟩

/-- The argument and the placeholder in the data are relative, and both are found in either way. -/
theorem absent_scope_agrees_greeting :
    greetingContext.functions.All HostFunction.IgnoresScope ∧
    ((greetingContext.inScope .null).format "$\x7bshow(note)\x7d" 0).result = .ok "hi Ada" ∧
    ((greetingContext.inScope greetingContext.dataModel).format "$\x7bshow(note)\x7d" 0).result
      = .ok "hi Ada" ∧
    ((greetingContext.inScope .null).format "$\x7bshow(note)\x7d" 0).SameRegardless
      (Context.inScope .null)
      ((greetingContext.inScope greetingContext.dataModel).format "$\x7bshow(note)\x7d" 0) := by
  have hf : greetingContext.functions.All HostFunction.IgnoresScope := by
    intro entry he
    rw [List.mem_singleton.1 he]
    have hscope : Stock.format ≠ .scope := by rintro ⟨⟩
    exact Stock.ignoresScope "show" hscope
  have hresult : ((greetingContext.inScope .null).format "$\x7bshow(note)\x7d" 0).result
      = .ok "hi Ada" := by cbv
  have hsame := (absent_scope_agrees greetingContext hf 0).1 "$\x7bshow(note)\x7d"
  exact ⟨hf, hresult, hsame.result.trans hresult, hsame⟩

end LiveValue
