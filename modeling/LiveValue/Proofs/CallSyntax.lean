import LiveValue.Host.Stock
import LiveValue.Proofs.ChangedContext
import LiveValue.Proofs.Terms

/-!
# Described and written calls

A call does the same whether it is described by a value or written as an expression, as long as
all functions in it are known. There are three differences. A written call resolves its arguments
before it looks for its function; a written reference takes a level of its own, so that only a
written call may nest too deeply there; and a string is unquoted, an integer read.

* `Term.compares_argument`: a term as a written argument and as a descriptor;
* `written_call_agrees`: the two forms of a call.
-/

namespace LiveValue

open Template

/-- Looking for a function is not seen, and nesting too deeply excuses the first run. -/
def upToDepth : Comparison where
  excuses := Excuse.nesting.holds
  view o := if o.sought?.isSome then none else some o
  view' o := if o.sought?.isSome then none else some o
  excuses_append := Excuse.nesting.append
  excuses_prepend := Excuse.nesting.prepend
  excuses_within := Excuse.nesting.within
  note?_view o := by cases o <;> rfl
  note?_view' o := by cases o <;> rfl
  view_within blocks o := by cases o <;> rfl
  view'_within blocks o := by cases o <;> rfl

namespace Context

variable {ctx : Context}

theorem argument_of_placeholder {raw body : String} (h : Argument.read raw = .placeholder body) :
    ctx.argument raw = ctx.evaluate body := by
  unfold argument Engine.argument
  rw [h]
  rfl

theorem argument_of_literal {raw text : String} (h : Argument.read raw = .literal text) :
    ctx.argument raw = Eval.ofExcept (Argument.literalValue text) := by
  unfold argument Engine.argument
  rw [h]

theorem compares_refuse {α : Type} (ctx : Context) (expression : Option String) (m : Eval α) :
    upToDepth.Compares (ctx.refuse expression) m :=
  fun _ => .inl ⟨_, _, _, rfl⟩

/-- A written call and a described one whose arguments compare well one level deeper. -/
theorem compares_call {name : CallName} {args : List Term}
    (hname : ctx.registry.contains name.text = true)
    (hargs : ∀ term ∈ args,
      upToDepth.Compares (ctx.deeper.argument (String.ofList term.write))
        (ctx.deeper.resolve term.describe)) :
    upToDepth.Compares
      (ctx.evaluate (String.ofList (Term.callText name (Term.writeAll args))))
      (ctx.call ⟨name.text, Term.describeAll args, none⟩) := by
  rw [evaluate_eq, call_eq, String.toList_ofList, Term.read_callText]
  rcases Int.lt_or_le ctx.depth ctx.limit with hlt | hle
  · -- both resolve the arguments one level down, in the same order
    have hmap : upToDepth.Compares
        (((Term.writeAll args).map String.ofList).mapM ctx.deeper.argument)
        ((Term.describeAll args).mapM ctx.deeper.resolve) := by
      rw [Term.writeAll_eq_map, Term.describeAll_eq_map, List.mapM_map, List.mapM_map,
        List.mapM_map]
      exact upToDepth.congruence.sim_mapM hargs
    obtain ⟨f, hf⟩ : ∃ f, ctx.deeper.registry.get? name.text = some f := by
      rw [← Option.isSome_iff_exists, Registry.isSome_get?]
      exact hname
    dsimp only
    rw [descend_bind_of_lt hlt, descend_bind_of_lt hlt, lookup_bind, hf]
    -- the described call looks for its function first, the written one after its arguments
    refine .unseen_right rfl (hmap.bind fun values => ?_)
    rw [lookup_bind, hf]
    exact .unseen_left rfl (.refl rfl _)
  · dsimp only
    rw [descend_bind_of_le hle]
    exact compares_refuse _ _ _

end Context

namespace Term

theorem argument_text (ctx : Context) (quote : Text.Quote) (content : String) :
    ctx.argument (String.ofList (text quote content).write) = pure (.str content) := by
  rw [Context.argument_of_literal (read_text quote content), literalValue_quoted,
    String.ofList_toList]
  rfl

theorem argument_integer (ctx : Context) (i : ShortInteger) :
    ctx.argument (String.ofList (integer i).write) = pure (.number (.int i.value)) := by
  rw [Context.argument_of_literal (read_integer i), literalValue_decimal]
  rfl

/-- A reference in a text takes a level, but finds the same as the descriptor. -/
theorem compares_binding (ctx : Context) (path : PlainPath) :
    upToDepth.Compares (ctx.evaluate path.text) (ctx.data path.text) := by
  rw [Context.evaluate_eq, read_path]
  dsimp only
  rcases Int.lt_or_le ctx.depth ctx.limit with hlt | hle
  · rw [Context.descend_bind_of_lt hlt]
    exact .refl rfl _
  · rw [Context.descend_bind_of_le hle]
    exact Context.compares_refuse _ _ _

theorem resolve_describe_call (ctx : Context) (name : CallName) (args : List Term) :
    ctx.resolve (call name args).describe = ctx.call ⟨name.text, describeAll args, none⟩ := by
  rw [describe, Context.resolve_eq]
  rfl

/-- A term as a written argument and as a descriptor. -/
theorem compares_argument (term : Term) (ctx : Context)
    (hnames : ∀ name ∈ term.names, ctx.registry.contains name = true) :
    upToDepth.Compares (ctx.argument (String.ofList term.write)) (ctx.resolve term.describe) := by
  induction term using induct generalizing ctx with
  | text quote content =>
    rw [argument_text, describe]
    exact .pure _
  | integer i =>
    rw [argument_integer, describe]
    exact .pure _
  | binding path =>
    rw [Context.argument_of_placeholder (read_binding path), describe]
    exact compares_binding ctx path
  | call name args ih =>
    rw [Context.argument_of_placeholder (read_call name args), resolve_describe_call]
    rw [names, List.forall_mem_cons] at hnames
    refine Context.compares_call hnames.1 fun term hterm => ?_
    refine ih term hterm ctx.deeper fun called hcalled => ?_
    exact hnames.2 called (mem_namesOfAll hterm hcalled)

end Term

/-- A call with any tree of strings, integers, references and known functions as its arguments,
written as an expression and described by a value. Unless the written one nests too deeply, the two
come to the same value or the same fault, with the same invocations and the same lines of the
log. -/
theorem written_call_agrees (ctx : Context) (name : CallName) (args : List Term)
    (hnames : ∀ called ∈ (Term.call name args).names, ctx.registry.contains called = true)
    (taken : Nat)
    (hdepth : ∀ depth limit expression,
      (ctx.evaluate (String.ofList (Term.callText name (Term.writeAll args))) taken).result
        ≠ .error (.nesting depth limit expression)) :
    let written := ctx.evaluate (String.ofList (Term.callText name (Term.writeAll args))) taken
    let described := ctx.resolve (Term.call name args).describe taken
    described.result = written.result ∧
      described.history.invocations = written.history.invocations ∧
      described.history.lines = written.history.lines := by
  intro written described
  have hagrees := Term.compares_argument (.call name args) ctx hnames taken
  rw [Context.argument_of_placeholder (Term.read_call name args)] at hagrees
  rcases hagrees with ⟨depth, limit, expression, hfault⟩ | ⟨hresult, hview⟩
  · exact absurd (Outcome.result_of_fault? hfault) (hdepth depth limit expression)
  · refine ⟨hresult, ?_, ?_⟩
    · exact Comparison.filterMap_eq (by rintro ⟨⟩ <;> rfl) (by rintro ⟨⟩ <;> rfl) hview
    · exact Comparison.filterMap_eq (by rintro ⟨⟩ <;> rfl) (by rintro ⟨⟩ <;> rfl) hview

/-- A data model with one entry, and a function that gives back its arguments. -/
def listContext : Context :=
  Context.root (.map [(.str "a", .str "A")]) .null
    ⟨[("list", Stock.function "list" .args)], by decide⟩ Settings.standard
    ⟨⟨2026, 1, 25⟩, 12, 0, 0, 0, none⟩

def listName : CallName := ⟨"list", by decide⟩

/-- A string with everything that could end it, a call with a reference, and an integer. -/
def listArgs : List Term :=
  [.text .single "it's, (\"$\x7b\\",
    .call listName [.binding ⟨"/a", by decide, by decide, by decide⟩],
    .integer ⟨-12, by decide⟩]

/-- The quote, the comma, the brace and the backslashes of the string do not split the list. -/
theorem written_list_agrees :
    (∀ called ∈ (Term.call listName listArgs).names,
      listContext.registry.contains called = true) ∧
    String.ofList (Term.callText listName (Term.writeAll listArgs))
      = "list('it\\'s, (\"$\x7b\\\\', $\x7blist($\x7b/a\x7d)\x7d, -12)" ∧
    (listContext.evaluate
      (String.ofList (Term.callText listName (Term.writeAll listArgs))) 0).result
        = .ok (.list [.str "it's, (\"$\x7b\\", .list [.str "A"], .number (.int (-12))]) ∧
    (listContext.resolve (Term.call listName listArgs).describe 0).result
      = .ok (.list [.str "it's, (\"$\x7b\\", .list [.str "A"], .number (.int (-12))]) := by
  have hnames : ∀ called ∈ (Term.call listName listArgs).names,
      listContext.registry.contains called = true := by decide
  have hresult : (listContext.evaluate
      (String.ofList (Term.callText listName (Term.writeAll listArgs))) 0).result
        = .ok (.list [.str "it's, (\"$\x7b\\", .list [.str "A"], .number (.int (-12))]) := by
    cbv
  have hagrees := written_call_agrees listContext listName listArgs hnames 0
    fun depth limit expression hnesting => by
      rw [hresult] at hnesting
      cases hnesting
  exact ⟨hnames, by decide, hresult, hagrees.1.trans hresult⟩

end LiveValue
