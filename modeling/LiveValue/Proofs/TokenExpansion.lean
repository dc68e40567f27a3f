import LiveValue.Engine
import LiveValue.Proofs.Tokens
import Mathlib

/-!
# Templates token by token

Expanding a template, a cursor moves over it and what is shown so far grows with it. What lies ahead
of the cursor can as well be taken apart into tokens first, each of which is then shown at its own
place of the template.

* `Engine.expand`: tokens one after another;
* `Engine.pass_eq`: where the cursor stands, the tokens of what lies ahead are still to be shown;
* `Engine.format_eq_expand`: a template is expanded by its tokens.
-/

namespace LiveValue

open Template

namespace Template

/-! ## Positions of a template -/

/-- What a template has at an index, and what lies behind that. -/
theorem drop_of_prefix {front source : List Char} {index : Nat} (h : front <+: source.drop index) :
    source.drop index = front ++ source.drop (index + front.length) := by
  rw [← List.drop_drop]
  exact (List.prefix_iff_eq_append.1 h).symm

namespace Body

/-- A body takes up the text from its start to where reading goes on. -/
theorem stop_eq {source : List Char} {start : Nat} (h : start ≤ source.length) :
    stop source start = start + (startingAt source start).source.length := by
  have hparts := congrArg List.length (source_append_rest_read (source.drop start))
  rw [List.length_append, List.length_drop] at hparts
  change (if (startingAt source start).closed then _ else _) = _
  cases hclosed : (startingAt source start).closed with
  | false =>
    rw [rest_read_of_open hclosed, List.length_nil] at hparts
    have hlength : source.length = start + (startingAt source start).source.length := by
      unfold startingAt
      omega
    exact hlength
  | true => simp [Body.source, hclosed, Nat.add_assoc]

/-- Reading goes on with what the body leaves over. -/
theorem drop_stop {source : List Char} {start : Nat} (h : start ≤ source.length) :
    source.drop (stop source start) = (startingAt source start).rest := by
  have hparts : (startingAt source start).source ++ (startingAt source start).rest
      = source.drop start := source_append_rest_read _
  rw [stop_eq h, ← List.drop_drop, ← hparts, List.drop_left]

end Body

end Template

namespace Engine

/-- What stands in place of a token that starts at a position of a template. -/
def render (e : Engine) (ctx : Context) (template : String) (position : Nat) :
    Token → Eval (List Char)
  | .literal c => return [c]
  | .opening => return ['$', '{']
  | .placeholder body closed => e.shown ctx template position body closed

/-- What stands in place of tokens, the first of which starts at a position of a template. -/
def expand (e : Engine) (ctx : Context) (template : String) : Nat → List Token → Eval (List Char)
  | _, [] => return []
  | position, token :: rest => do
      let first ← e.render ctx template position token
      let others ← expand e ctx template (position + token.source.length) rest
      return first ++ others

theorem expand_cons (e : Engine) (ctx : Context) (template : String) (position : Nat)
    (token : Token) (rest : List Token) :
    e.expand ctx template position (token :: rest) = (do
      let first ← e.render ctx template position token
      let others ← e.expand ctx template (position + token.source.length) rest
      return first ++ others) := rfl

/-- Where the cursor stands, the tokens of what lies ahead are still to be shown. -/
theorem pass_eq (e : Engine) (ctx : Context) (template : List Char) (index : Nat)
    (output : List Char) :
    e.pass ctx template index output = (do
      let shown ← e.expand ctx (String.ofList template) index
        (Token.tokenize (template.drop index))
      return output ++ shown) := by
  fun_induction Engine.pass e ctx template index output with
  | case1 index output h hopening ih =>
    have hahead : template.drop index = '\\' :: '$' :: '{' :: template.drop (index + 3) :=
      drop_of_prefix hopening
    rw [ih, hahead, Token.tokenize_opening, expand_cons]
    simp [render, Token.source]
  | case2 index output h hopening hplaceholder body ih =>
    have hahead : template.drop index = '$' :: '{' :: template.drop (index + 2) :=
      drop_of_prefix hplaceholder
    have hstart : index + 2 ≤ template.length := by
      have hlength := hplaceholder.length_le
      rw [List.length_drop] at hlength
      exact Nat.add_le_of_le_sub' h.le hlength
    -- the body is the one that the token has read, and the cursor goes on where the token ends
    have hbody : Body.read (template.drop (index + 2)) = body := rfl
    have hstop : index + (Token.placeholder body.text body.closed).source.length
        = Body.stop template (index + 2) := by
      rw [Body.stop_eq hstart, Nat.add_assoc, Nat.add_comm 2]
      rfl
    have hrest : body.rest = template.drop (Body.stop template (index + 2)) :=
      (Body.drop_stop hstart).symm
    rw [hahead, Token.tokenize_placeholder, expand_cons, render, hbody, hstop, hrest]
    simp only [ih, bind_assoc, pure_bind, List.append_assoc]
  | case3 index output h hopening hplaceholder ih =>
    have hahead := List.drop_eq_getElem_cons h
    rw [hahead] at hopening hplaceholder
    rw [ih, hahead, Token.tokenize_literal hopening hplaceholder, expand_cons]
    simp [render, Token.source]
  | case4 index output h =>
    rw [List.drop_eq_nil_of_le (Nat.le_of_not_lt h)]
    simp [Token.tokenize, expand]

/-- A template is expanded by its tokens. -/
theorem format_eq_expand (e : Engine) (ctx : Context) (template : String) :
    e.format ctx template = (do
      return String.ofList (← e.expand ctx template 0 (Token.tokenize template.toList))) := by
  simp [format, pass_eq]

end Engine

end LiveValue
