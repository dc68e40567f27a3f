import LiveValue.Proofs.TokenExpansion

/-!
# Expansion in phases

Expanding a template in one pass, a cursor moves over the template and what is shown so far grows
with it: at every placeholder the pass stops to evaluate the body, and goes on behind it. Still the
values that are met have no part in how the template is read. The same comes out if the template is
first taken apart into tokens, then all the bodies are evaluated in order, and at last the texts are
put in place of their placeholders.

* `Token.fill`: texts put in place of placeholders;
* `Context.expand_eq_fill`: tokens are expanded by evaluating bodies first;
* `format_in_phases`: templates, in one pass and in phases.
-/

namespace LiveValue

namespace Template

/-! ## Placeholders and what is put in their place -/

/-- A placeholder at a position of a template. -/
structure Placeholder where
  position : Nat
  body : List Char
  closed : Bool
deriving DecidableEq

namespace Token

/-- The placeholders among tokens, the first of which starts at a position of a template. -/
def placeholders : Nat → List Token → List Placeholder
  | _, [] => []
  | position, .placeholder body closed :: rest =>
      ⟨position, body, closed⟩ ::
        placeholders (position + (placeholder body closed).source.length) rest
  | position, token :: rest => placeholders (position + token.source.length) rest

/-- Tokens with texts put in place of their placeholders, one after another. A placeholder for which
no text is left shows nothing. -/
def fill : List Token → List (List Char) → List Char
  | [], _ => []
  | .literal c :: rest, texts => c :: fill rest texts
  | .opening :: rest, texts => '$' :: '{' :: fill rest texts
  | .placeholder .. :: rest, text :: texts => text ++ fill rest texts
  | .placeholder .. :: rest, [] => fill rest []

/-- Whatever the texts are, each one is put in place of its own placeholder. -/
theorem fill_append {first : List Token} {texts : List (List Char)} {position : Nat}
    (h : texts.length = (placeholders position first).length) (others : List Token)
    (more : List (List Char)) :
    fill (first ++ others) (texts ++ more) = fill first texts ++ fill others more := by
  induction first generalizing texts position with
  | nil =>
    rw [List.length_eq_zero_iff.1 h]
    rfl
  | cons token rest ih =>
    cases token with
    | literal c => exact congrArg (c :: ·) (ih h)
    | opening => exact congrArg ('$' :: '{' :: ·) (ih h)
    | placeholder body closed =>
      obtain ⟨text, texts, rfl⟩ := List.exists_cons_of_length_eq_add_one h
      rw [placeholders, List.length_cons, List.length_cons, Nat.add_right_cancel_iff] at h
      rw [List.cons_append, List.cons_append, fill, fill, ih h, List.append_assoc]

end Token

end Template

open Template

namespace Context

/-! ## Bodies first -/

/-- What is shown in place of a placeholder of a template. -/
def shown (ctx : Context) (template : String) (p : Placeholder) : Eval (List Char) :=
  ctx.engine.shown ctx template p.position p.body p.closed

/-- Where open placeholders are tolerated, nothing but the body can fault. -/
theorem shown_of_tolerant {ctx : Context} (h : ctx.settings.strictTemplates = false)
    (template : String) (p : Placeholder) :
    ctx.shown template p = (do
      unless p.closed do Eval.log (.unterminatedPlaceholder p.position)
      let value ← ctx.evaluate (String.ofList p.body)
      Eval.ofExcept value.text) := by
  have hmiss : Engine.missBrace ctx template p.position
      = Eval.log (.unterminatedPlaceholder p.position) := by
    rw [Engine.missBrace, h]
    rfl
  rw [shown, Engine.shown, hmiss]
  rfl

theorem render_placeholder (ctx : Context) (template : String) (position : Nat)
    (body : List Char) (closed : Bool) :
    ctx.engine.render ctx template position (.placeholder body closed)
      = ctx.shown template ⟨position, body, closed⟩ := rfl

/-- Tokens are expanded by evaluating all the bodies first. -/
theorem expand_eq_fill (ctx : Context) (template : String) (position : Nat) (tokens : List Token) :
    ctx.engine.expand ctx template position tokens = (do
      let texts ← (Token.placeholders position tokens).mapM (ctx.shown template)
      return Token.fill tokens texts) := by
  induction tokens generalizing position with
  | nil => simp [Engine.expand, Token.placeholders, Token.fill]
  | cons token rest ih =>
    rw [Engine.expand_cons, ih]
    cases token with
    | literal c => simp [Engine.render, Token.placeholders, Token.fill]
    | opening => simp [Engine.render, Token.placeholders, Token.fill]
    | placeholder body closed =>
      simp [render_placeholder, Token.placeholders, Token.fill]

end Context

/-- **Templates in phases.** The tokens of a template depend on the template alone, and no character
is lost in them. Where open placeholders are tolerated, the one pass over the template comes to the
same as evaluating the bodies of all placeholders, in order and each of them once, and then putting
the texts of their values in place of them. Each text stands there as it is, between what is shown
of the tokens before its placeholder and of those behind it. -/
theorem format_in_phases (ctx : Context) (h : ctx.settings.strictTemplates = false)
    (template : String) :
    let tokens := Token.tokenize template.toList
    tokens.flatMap Token.source = template.toList ∧
    ctx.format template = (do
      return String.ofList (← ctx.engine.pass ctx template.toList 0 [])) ∧
    ctx.format template = (do
      let texts ← (Token.placeholders 0 tokens).mapM fun p => do
        unless p.closed do Eval.log (.unterminatedPlaceholder p.position)
        let value ← ctx.evaluate (String.ofList p.body)
        Eval.ofExcept value.text
      return String.ofList (Token.fill tokens texts)) ∧
    ∀ before body closed after texts text more,
      tokens = before ++ .placeholder body closed :: after →
      texts.length = (Token.placeholders 0 before).length →
      Token.fill tokens (texts ++ text :: more)
        = Token.fill before texts ++ text ++ Token.fill after more := by
  intro tokens
  refine ⟨Token.flatMap_source_tokenize _, rfl, ?_, ?_⟩
  · rw [Context.format, Engine.format_eq_expand, Context.expand_eq_fill, bind_assoc,
      funext (Context.shown_of_tolerant h template)]
    rfl
  · intro before body closed after texts text more htokens hlength
    rw [htokens, Token.fill_append hlength, Token.fill, List.append_assoc]

def hazardContext : Context :=
  Context.root (.map [(.str "a", .str "$\x7b/b\x7d \x7d '\" \\$\x7b"), (.str "b", .str "B")]) .null
    ⟨[], List.nodup_nil⟩ { Settings.standard with strictTemplates := false }
    ⟨⟨2026, 1, 25⟩, 12, 0, 0, 0, none⟩

/-- An escaped opening, a placeholder of its own, and one that is left open. -/
def hazardTemplate : String := "\\$\x7b$\x7b/a\x7d-$\x7b/a"

theorem format_in_phases_hazard :
    hazardContext.settings.strictTemplates = false ∧
    (hazardContext.format hazardTemplate 0).result
      = .ok "$\x7b$\x7b/b\x7d \x7d '\" \\$\x7b-$\x7b/b\x7d \x7d '\" \\$\x7b" := by
  obtain ⟨-, -, hphases, -⟩ := format_in_phases hazardContext rfl hazardTemplate
  refine ⟨rfl, ?_⟩
  rw [hphases]
  cbv

end LiveValue
