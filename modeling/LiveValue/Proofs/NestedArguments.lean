import LiveValue.Proofs.ArgumentPieces
import LiveValue.Proofs.CallSyntax

/-!
# Placeholders as arguments

An argument may be a placeholder. Its body ends where the braces match, but an argument list knows
nothing of braces: it is split at commas outside of quotes and parentheses. So a placeholder is one
argument, with the value of its body, as long as its body has no such comma; and if it has one, then
the function gets pieces of the placeholder.

* `Arguments.Undivided`: texts without such a comma;
* `Arguments.exists_split_placeholder_iff`: placeholders that are single arguments;
* `nested_placeholder_agrees`: the call of a function with a placeholder as its argument;
* `comma_divides_placeholder`: a body with a comma that a template takes and a call does not.
-/

namespace LiveValue

open Text (Pieces)
open Template

/-- Nothing is left of a text if it has nothing but blanks. -/
theorem Text.isBlank_of_trim_eq_nil {s : List Char} (h : trim s = []) :
    ∀ c ∈ s, isBlank c = true := by
  obtain ⟨trail, hs, htrail⟩ := exists_trail s
  rw [h, List.append_nil] at hs
  rw [hs]
  exact List.forall_mem_append.2 ⟨fun c hc => List.mem_takeWhile_imp hc, htrail⟩

namespace Template

namespace Arguments

/-- A text that is one argument at most: its commas are in quotes or in parentheses. -/
def Undivided (s : List Char) : Prop := (Place.ground.over? s).isSome = true

instance : DecidablePred Undivided := fun _ => inferInstanceAs (Decidable (_ = true))

/-- The braces of a placeholder divide nothing. -/
theorem undivided_placeholder_iff (body : List Char) :
    Undivided ('$' :: '{' :: (body ++ ['}'])) ↔ Undivided body := by
  have hopen : Place.ground.over? ['$', '{'] = some .ground := by decide
  have hclose (p : Place) : (p.over? ['}']).isSome = true := by
    rw [Place.over?_cons fun hcut => absurd hcut.1 (by decide)]
    rfl
  have hsplit : '$' :: '{' :: (body ++ ['}']) = ['$', '{'] ++ (body ++ ['}']) := rfl
  rw [Undivided, hsplit, Place.over?_append, hopen, Option.bind_some, Place.over?_append, Undivided]
  cases Place.ground.over? body with
  | none => exact Iff.rfl
  | some p => exact iff_of_true (hclose p) rfl

theorem trim_placeholder (body : List Char) :
    Text.trim ('$' :: '{' :: (body ++ ['}'])) = '$' :: '{' :: (body ++ ['}']) :=
  Text.trim_cons_concat (by decide) (by decide) ('{' :: body)

/-- An undivided text is a list of itself, if it has any characters but blanks around it. -/
theorem split_of_undivided {s : List Char} (h : Undivided s) (htrim : Text.trim s = s)
    (hne : s ≠ []) : split s = [s] := by
  have hdivides : Divides ([s].map Text.trim) := by
    rw [List.map_singleton, htrim]
    exact .single h
  have hlast : ([s].map Text.trim).getLast? ≠ some [] := by
    rw [List.map_singleton, htrim]
    exact fun hnil => hne (Option.some.inj hnil)
  have hsplit := split_intercalate hdivides hlast
  rwa [List.intercalate_singleton, List.map_singleton, htrim] at hsplit

/-- A list that is split into one argument has no comma, except for one at its end. -/
theorem undivided_of_split_eq_singleton {s arg : List Char} {c : Char} (h : split s = [arg])
    (hc : s.getLast? = some c) (hcomma : c ≠ ',') (hblank : Text.isBlank c = false) :
    Undivided s := by
  obtain ⟨front, last, hpieces⟩ :=
    (List.eq_nil_or_concat' (pieces .scanning 0 s).toList).resolve_left (List.cons_ne_nil _ _)
  have hjoined : [','].intercalate (front ++ [last]) = s := by
    rw [← hpieces, Pieces.intercalate_toList, joined_pieces]
  have hdivides := divides_pieces s
  rw [hpieces] at hdivides
  rw [split, hpieces, List.map_append, List.map_singleton, dropEmptyLast_concat] at h
  by_cases hlast : Text.trim last = []
  · -- nothing but a comma and blanks would be at the end
    rw [if_pos hlast, List.append_nil] at h
    obtain ⟨first, rfl, -⟩ := List.map_eq_singleton_iff.1 h
    have hs : first ++ ',' :: last = s := by simpa [List.intercalate_cons_cons] using hjoined
    rw [← hs, List.getLast?_append_of_ne_nil _ (List.cons_ne_nil _ _)] at hc
    rcases List.mem_cons.1 (List.mem_of_getLast? hc) with hmark | hmem
    · exact absurd hmark hcomma
    · rw [Text.isBlank_of_trim_eq_nil hlast c hmem] at hblank
      cases hblank
  · rw [if_neg hlast] at h
    have hlength := congrArg List.length h
    rw [List.length_append, List.length_map] at hlength
    obtain rfl : front = [] := List.length_eq_zero_iff.1 (Nat.succ.inj hlength)
    obtain rfl : last = s := List.intercalate_singleton.symm.trans hjoined
    exact hdivides.uncut last List.mem_cons_self

theorem exists_split_placeholder_iff (body : List Char) :
    (∃ arg, split ('$' :: '{' :: (body ++ ['}'])) = [arg]) ↔ Undivided body := by
  rw [← undivided_placeholder_iff]
  constructor
  · rintro ⟨arg, hsplit⟩
    have hlast : ('$' :: '{' :: (body ++ ['}'])).getLast? = some '}' :=
      List.getLast?_concat (l := '$' :: '{' :: body)
    exact undivided_of_split_eq_singleton hsplit hlast (by decide) (by decide)
  · intro h
    exact ⟨_, split_of_undivided h (trim_placeholder body) (List.cons_ne_nil _ _)⟩

end Arguments

end Template

namespace Context

variable {ctx : Context}

/-- A placeholder as an argument has the value of its body. -/
theorem argument_placeholder (ctx : Context) (body : List Char) :
    ctx.argument (String.ofList ('$' :: '{' :: (body ++ ['}'])))
      = ctx.evaluate (String.ofList body) := by
  refine argument_of_placeholder ?_
  rw [Argument.read, String.toList_ofList, Arguments.trim_placeholder, Term.ofTrimmed_placeholder]

/-- A written call of a known function, with a level left. -/
theorem evaluate_of_call {text source name : String} {args : List String} {f : HostFunction}
    (h : Expression.read text.toList = .call source name args)
    (hf : ctx.registry.get? name = some f) (hdepth : ctx.depth < ctx.limit) :
    ctx.evaluate text = (do
      let values ← args.mapM ctx.deeper.argument
      Eval.emit (.sought name)
      ctx.deeper.invoke name f values) := by
  have hlookup : ctx.deeper.registry.get? name = some f := hf
  rw [evaluate_eq, h]
  dsimp only
  rw [descend_bind_of_lt hdepth]
  simp only [lookup_bind, hlookup]

end Context

/-- The call of a function with a placeholder as its argument. The call is read as one with a single
argument exactly if the body of the placeholder is undivided, and then the function gets the value
that the body has one level deeper, and nothing else. -/
theorem nested_placeholder_agrees (ctx : Context) (name : CallName) (body : List Char)
    (f : HostFunction) (hf : ctx.registry.get? name.text = some f)
    (hdepth : ctx.depth < ctx.limit) :
    let call := name.applied ('$' :: '{' :: (body ++ ['}']))
    ((∃ arg, Expression.read call = .call (String.ofList call) name.text [arg]) ↔
      Arguments.Undivided body) ∧
    (Arguments.Undivided body →
      ctx.evaluate (String.ofList call) = (do
        let value ← ctx.deeper.evaluate (String.ofList body)
        Eval.emit (.sought name.text)
        ctx.deeper.invoke name.text f [value])) := by
  intro call
  have hread : Expression.read call = .call (String.ofList call) name.text
      ((Arguments.split ('$' :: '{' :: (body ++ ['}']))).map String.ofList) :=
    name.read_applied _
  refine ⟨?_, fun h => ?_⟩
  · rw [hread, ← Arguments.exists_split_placeholder_iff]
    simp only [Expression.call.injEq, true_and, List.map_eq_singleton_iff]
    exact ⟨fun ⟨_, arg, hsplit, _⟩ => ⟨arg, hsplit⟩, fun ⟨arg, hsplit⟩ => ⟨_, arg, hsplit, rfl⟩⟩
  · have hsplit := Arguments.split_of_undivided
      ((Arguments.undivided_placeholder_iff body).2 h) (Arguments.trim_placeholder body)
      (List.cons_ne_nil _ _)
    rw [hsplit, List.map_singleton] at hread
    rw [← String.toList_ofList (l := call)] at hread
    rw [Context.evaluate_of_call hread hf hdepth, List.mapM_cons, List.mapM_nil,
      Context.argument_placeholder]
    simp only [bind_assoc, pure_bind]

/-- A body with commas in quotes and in parentheses. -/
def listBody : List Char := "list('a,b', list(1, 2))".toList

theorem nested_placeholder_agrees_list :
    listContext.registry.get? listName.text = some (Stock.function "list" .args) ∧
    listContext.depth < listContext.limit ∧
    Arguments.Undivided listBody ∧
    (listContext.evaluate
      (String.ofList (listName.applied ('$' :: '{' :: (listBody ++ ['}'])))) 0).result
        = .ok (.list [.list [.str "a,b", .list [.number (.int 1), .number (.int 2)]]]) := by
  have hf : listContext.registry.get? listName.text = some (Stock.function "list" .args) := rfl
  have hdepth : listContext.depth < listContext.limit := by decide
  have hundivided : Arguments.Undivided listBody := by
    unfold Arguments.Undivided
    cbv
  refine ⟨hf, hdepth, hundivided, ?_⟩
  rw [(nested_placeholder_agrees listContext listName listBody _ hf hdepth).2 hundivided]
  cbv

/-! ## Placeholders that are divided -/

/-- A text that is neither quoted nor a word of its own nor a number stands for itself. -/
theorem Template.Argument.literalValue_eq_str {text : String} {c : Char} {rest : List Char}
    (htext : text.toList = c :: rest) (hquoted : quoted? (c :: rest) = none)
    (hkeyword : keyword? text = none) (hparse : Number.parse (c :: rest) = .ok none) :
    literalValue text = .ok (.str text) := by
  have hne : text ≠ "" := by
    rintro rfl
    cases htext
  rw [literalValue, htext, hquoted, hkeyword]
  dsimp only
  rw [if_neg hne, hparse]
  rfl

/-- A reference to nothing, with a level left, counts as a literal. -/
theorem Context.argument_of_missing {ctx : Context} {raw text path : String}
    (hread : Argument.read raw = .reference text)
    (hpath : Expression.read text.toList = .relative path) (hdepth : ctx.depth < ctx.limit)
    (hmissing : Path.resolve ctx.dataModel ctx.scope path = .ok .undefined) :
    ctx.argument raw = Eval.ofExcept (Argument.literalValue text) := by
  have hdata : ctx.deeper.data path = pure .undefined := by
    have hdeeper : Path.resolve ctx.deeper.dataModel ctx.deeper.scope path = .ok .undefined :=
      hmissing
    rw [data, hdeeper]
    rfl
  have hfound : ctx.evaluate text = pure .undefined := by
    rw [evaluate_eq, hpath]
    dsimp only
    rw [descend_bind_of_lt hdepth, hdata]
  have hargument : ctx.argument raw = (do
      let found ← ctx.evaluate text
      if found.isUndefined then Eval.ofExcept (Argument.literalValue text)
      else return found) := by
    unfold argument Engine.argument
    rw [hread]
    rfl
  rw [hargument, hfound, pure_bind]
  rfl

/-- A data model whose one key has a comma, and a function that gives back its arguments. -/
def commaContext : Context :=
  { listContext with dataModel := .map [(.str "a,b", .str "x")] }

/-- A template takes all of `${a,b}` as a placeholder, and `a,b` has a value. As an argument it is
not one placeholder but two texts. -/
theorem comma_divides_placeholder :
    Body.startingAt ['$', '{', 'a', ',', 'b', '}'] 2 = ⟨['a', ',', 'b'], [], true⟩ ∧
    commaContext.registry.get? "list" = some (Stock.function "list" .args) ∧
    commaContext.depth < commaContext.limit ∧
    (commaContext.deeper.evaluate "a,b" 0).result = .ok (.str "x") ∧
    (commaContext.evaluate "list($\x7ba,b\x7d)" 0).result
      = .ok (.list [.str "$\x7ba", .str "b\x7d"]) := by
  have hdepth : commaContext.depth < commaContext.limit := by decide
  have hf : commaContext.registry.get? "list" = some (Stock.function "list" .args) := rfl
  have hfirst : commaContext.deeper.argument "$\x7ba" = pure (.str "$\x7ba") := by
    have hread : Argument.read "$\x7ba" = .literal "$\x7ba" := by cbv
    have hliteral : Argument.literalValue "$\x7ba" = .ok (.str "$\x7ba") := by
      refine Argument.literalValue_eq_str rfl rfl (by decide) (Number.parse_eq_none ?_ ?_ ?_) <;>
        decide
    rw [Context.argument_of_literal hread, hliteral]
    rfl
  have hsecond : commaContext.deeper.argument "b\x7d" = pure (.str "b\x7d") := by
    have hread : Argument.read "b\x7d" = .reference "b\x7d" := by cbv
    have hpath : Expression.read "b\x7d".toList = .relative "b\x7d" := by cbv
    have hmissing : Path.resolve commaContext.deeper.dataModel commaContext.deeper.scope "b\x7d"
        = .ok .undefined := by cbv
    have hliteral : Argument.literalValue "b\x7d" = .ok (.str "b\x7d") := by
      refine Argument.literalValue_eq_str rfl rfl (by decide) (Number.parse_eq_none ?_ ?_ ?_) <;>
        decide
    rw [Context.argument_of_missing hread hpath (by decide) hmissing, hliteral]
    rfl
  have hcall : Expression.read "list($\x7ba,b\x7d)".toList
      = .call "list($\x7ba,b\x7d)" "list" ["$\x7ba", "b\x7d"] := by cbv
  refine ⟨by decide, hf, hdepth, by cbv, ?_⟩
  rw [Context.evaluate_of_call hcall hf hdepth, List.mapM_cons, List.mapM_cons, List.mapM_nil,
    hfirst, hsecond]
  simp only [pure_bind]
  rfl

end LiveValue
