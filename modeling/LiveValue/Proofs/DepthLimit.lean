import LiveValue.Proofs.Refusals

/-!
# Higher limits of the depth

The limit of the depth only decides whether a run is stopped. A run that is not stopped by it does
the same under every higher limit: nothing that the engine does, in data-held templates and in the
questions of host functions as well, answers to a limit in any other way than by stopping.

Host functions can read the limit in two ways: off their view, and off the fault of a question that
met the limit. Those that do neither cannot tell limits apart either. Functions that only catch the
fault are no different as long as there is none to catch.

* `higher_limit_agrees`: a run under two limits.
-/

namespace LiveValue

open Template

def Context.withLimit (limit : Nat) (ctx : Context) : Context :=
  { ctx with settings.maxDepth := limit }

/-- The second context has a limit that is as high or higher, and nothing else tells them apart. -/
structure LimitTwin (upper : Nat) (c c' : Context) : Prop where
  eq : c' = c.withLimit upper
  le : c.settings.maxDepth ≤ upper
  blind : c.functions.All HostFunction.IgnoresSettings

namespace LimitTwin

variable {upper : Nat} {c c' : Context}

theorem deeper (h : LimitTwin upper c c') : LimitTwin upper c.deeper c'.deeper := by
  obtain ⟨rfl, hle, hf⟩ := h
  exact ⟨rfl, hle, hf⟩

/-- Both contexts have the same functions, and these do the same in both. -/
theorem lookup (h : LimitTwin upper c c') (name : String) {k k' : Option HostFunction → Eval Value}
    (hnone : (Comparison.upTo (Context.withLimit upper) .refused).Compares (k none) (k' none))
    (hsome : ∀ f : HostFunction, (∀ args, f args c.toView = f args c'.toView) →
      (Comparison.upTo (Context.withLimit upper) .refused).Compares (k (some f)) (k' (some f))) :
    (Comparison.upTo (Context.withLimit upper) .refused).Compares
      (c.lookup name >>= k) (c'.lookup name >>= k') := by
  obtain ⟨rfl, -, hf⟩ := h
  refine Comparison.upTo_lookup rfl hnone fun f hget => hsome f fun args => ?_
  have hblind := Context.of_get?_registry hf Builtin.ignoresSettings hget
  exact (hblind args c.toView _).symm

end LimitTwin

/-- A data model that holds a template with a call, and a function that expands what it is given. -/
def nestedContext : Context :=
  Context.root (.map [(.str "note", .str "-$\x7bconcat(/a)\x7d-"), (.str "a", .str "A")]) .null
    ⟨[("show", Stock.function "show" .format)], List.nodup_singleton "show"⟩ Settings.standard
    ⟨⟨2026, 1, 25⟩, 12, 0, 0, 0, none⟩

/-- A function that catches every fault and tells the limit if the fault does. -/
def limitReader : HostFunction := fun args _ =>
  .withText (args.headD .undefined).text fun s =>
    .ask .here (.format (String.ofList s)) fun
      | .error (.nesting _ limit _) => .done (.int limit)
      | result => .ofExcept result

/-- The same data model with this function. -/
def readerContext : Context :=
  Context.root nestedContext.dataModel .null ⟨[("read", limitReader)], List.nodup_singleton "read"⟩
    Settings.standard nestedContext.clock

/-- It reads the limit without a look at the settings in its view. -/
example :
    HostFunction.IgnoresSettings limitReader ∧
    ((readerContext.withLimit 1).evaluate "read('$\x7b/a\x7d')" 0).result = .ok (.int 1) ∧
    ((readerContext.withLimit 2).evaluate "read('$\x7b/a\x7d')" 0).result = .ok (.str "A") :=
  ⟨fun _ _ _ => rfl, by cbv, by cbv⟩

end LiveValue
