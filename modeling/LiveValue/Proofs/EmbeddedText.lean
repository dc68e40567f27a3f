import LiveValue.Proofs.TemplatePhases

/-!
# Texts inside templates

Any text can stand in a template as it is: with a backslash in front of every `${`, it is read
without placeholders. Nothing that the text had before can join a backslash that was put in, since
no text starts with `${` after that.

* `escapeOpenings`: a text with all its openings escaped;
* `Token.tokenize_escapeOpenings`: its tokens, one for each character and each opening of the text;
* `format_escapeOpenings`: the template shows the text.
-/

namespace LiveValue

namespace Template

/-- A text with a backslash in front of every `${`. -/
def escapeOpenings : List Char → List Char
  | '$' :: '{' :: rest => '\\' :: '$' :: '{' :: escapeOpenings rest
  | c :: rest => c :: escapeOpenings rest
  | [] => []

theorem head?_escapeOpenings_ne {s : List Char} (h : s.head? ≠ some '{') :
    (escapeOpenings s).head? ≠ some '{' := by
  fun_cases escapeOpenings s with
  | case1 rest => nofun
  | case2 c rest hopening => exact h
  | case3 => nofun

/-- No opening is left at the start of the text. -/
theorem not_opening_escapeOpenings (s : List Char) : ¬['$', '{'] <+: escapeOpenings s := by
  fun_cases escapeOpenings s with
  | case1 rest =>
    rintro ⟨t, ht⟩
    cases ht
  | case2 c rest hopening =>
    rintro ⟨t, ht⟩
    obtain ⟨rfl, hbrace⟩ := List.cons_eq_cons.1 ht
    -- a brace behind the dollar would have made an opening of it before
    refine head?_escapeOpenings_ne (fun hhead => ?_) (congrArg List.head? hbrace).symm
    obtain ⟨rest', hrest⟩ := List.head?_eq_some_iff.1 hhead
    exact hopening rest' rfl hrest
  | case3 => decide

namespace Token

/-- The tokens of a text in which every opening is escaped. -/
def ofText : List Char → List Token
  | '$' :: '{' :: rest => .opening :: ofText rest
  | c :: rest => .literal c :: ofText rest
  | [] => []

theorem tokenize_escapeOpenings (s : List Char) : tokenize (escapeOpenings s) = ofText s := by
  fun_induction ofText s with
  | case1 rest ih => rw [escapeOpenings, tokenize_opening, ih]
  | case2 c rest hopening ih =>
    have hescape : escapeOpenings (c :: rest) = c :: escapeOpenings rest := by
      rw [escapeOpenings]
      exact hopening
    -- neither the character nor a backslash that it may be joins what was put in behind it
    have hplaceholder := hescape ▸ not_opening_escapeOpenings (c :: rest)
    have hescaped : ¬['\\', '$', '{'] <+: c :: escapeOpenings rest := fun h =>
      not_opening_escapeOpenings rest (List.cons_prefix_cons.1 h).2
    rw [hescape, tokenize_literal hescaped hplaceholder, ih]
  | case3 => rw [escapeOpenings, tokenize]

theorem placeholders_ofText (position : Nat) (s : List Char) :
    placeholders position (ofText s) = [] := by
  fun_induction ofText s generalizing position with
  | case1 rest ih => exact ih _
  | case2 c rest hopening ih => exact ih _
  | case3 => rfl

theorem fill_ofText (s : List Char) (texts : List (List Char)) : fill (ofText s) texts = s := by
  fun_induction ofText s with
  | case1 rest ih => exact congrArg ('$' :: '{' :: ·) ih
  | case2 c rest hopening ih => exact congrArg (c :: ·) ih
  | case3 => rfl

end Token

end Template

open Template

/-- **Texts stand for themselves.** With its openings escaped, a text has no placeholder left, so it
is shown as it is, in every context, and nothing happens on the way. -/
theorem format_escapeOpenings (ctx : Context) (s : String) (taken : Nat) :
    let template := escapeOpenings s.toList
    Token.placeholders 0 (Token.tokenize template) = [] ∧
      ctx.format (String.ofList template) taken = ⟨.ok s, []⟩ := by
  intro template
  have htokens : Token.tokenize template = Token.ofText s.toList :=
    Token.tokenize_escapeOpenings s.toList
  have hnone : Token.placeholders 0 (Token.tokenize template) = [] := by
    rw [htokens, Token.placeholders_ofText]
  have hformat : ctx.format (String.ofList template) = pure s := by
    rw [Context.format, Engine.format_eq_expand, String.toList_ofList, Context.expand_eq_fill, hnone,
      htokens]
    simp [Token.fill_ofText]
  exact ⟨hnone, by rw [hformat]; rfl⟩

/-- Backslashes and dollars that were there before stay what they are. -/
example : Token.tokenize (escapeOpenings "\\$\x7b$$\x7b".toList)
    = [.literal '\\', .opening, .literal '$', .opening] := by cbv

end LiveValue
