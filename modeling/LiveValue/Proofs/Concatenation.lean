import LiveValue.Proofs.Invariants

/-!
# Templates put together

A template put together from two parts shows what the one shows and then what the other shows, and
what happens on the way happens in the same order; a fault of the first part stops the whole. Only
a placeholder that the second part itself leaves open is reported at another place, which lies
further on by the length of the first part.

* `Engine.expand_append`, `Engine.expand_of_closed`: the tokens of a template one after another;
* `steadiness`: with deterministic functions, nothing depends on the notes taken before;
* `format_append`: the whole compared with its parts.
-/

namespace LiveValue

open Template

/-! ## Tokens one after another -/

namespace Engine

variable {e : Engine} {ctx : Context}

theorem expand_append (template : String) (position : Nat) (first others : List Token) :
    e.expand ctx template position (first ++ others) = (do
      let shown ← e.expand ctx template position first
      let more ← e.expand ctx template (position + (first.flatMap Token.source).length) others
      return shown ++ more) := by
  induction first generalizing position with
  | nil => simp [expand]
  | cons token first ih =>
    simp only [List.cons_append, expand_cons, ih, bind_assoc, pure_bind, List.append_assoc,
      List.flatMap_cons, List.length_append, Nat.add_assoc]

/-- Closed tokens show the same in every template and at every place. -/
theorem expand_of_closed {tokens : List Token} (hclosed : ∀ token ∈ tokens, token.Closed)
    (template template' : String) (position position' : Nat) :
    e.expand ctx template position tokens = e.expand ctx template' position' tokens := by
  induction tokens generalizing position position' with
  | nil => rfl
  | cons token rest ih =>
    rw [List.forall_mem_cons] at hclosed
    have hfirst : e.render ctx template position token
        = e.render ctx template' position' token := by
      cases token with
      | literal c => rfl
      | opening => rfl
      | placeholder body closed =>
        obtain rfl : closed = true := hclosed.1
        rfl
    rw [expand_cons, expand_cons, hfirst, ih hclosed.2]

end Engine

/-! ## Nothing depends on the notes taken before -/

/-- The evaluation does the same whatever number of notes was taken before. -/
def Eval.Steady {α : Type} (m : Eval α) : Prop := ∀ taken taken', m taken = m taken'

theorem Eval.map_apply {α β : Type} (m : Eval α) (g : α → β) (taken : Nat) :
    (m >>= fun a => pure (g a)) taken = ⟨(m taken).result.map g, (m taken).history⟩ := by
  rcases m.apply_eq taken with ⟨fault, history, h⟩ | ⟨a, history, h⟩
  · rw [bind_of_error h, h]
    rfl
  · rw [bind_of_ok h, h, pure_apply, List.append_nil]
    rfl

namespace Eval.Steady

variable {α β : Type}

theorem bind {m : Eval α} {f : α → Eval β} (hm : m.Steady) (hf : ∀ a, (f a).Steady) :
    (m >>= f).Steady := by
  intro taken taken'
  have hfirst := hm taken taken'
  rcases m.apply_eq taken' with ⟨fault, history, h⟩ | ⟨a, history, h⟩
  · rw [Eval.bind_of_error h, Eval.bind_of_error (hfirst.trans h)]
  · rw [Eval.bind_of_ok h, Eval.bind_of_ok (hfirst.trans h),
      hf a (taken + history.notes.length) (taken' + history.notes.length)]

theorem ask {m : Eval α} {f : Except Fault α → Eval β} (hm : m.Steady)
    (hf : ∀ result, (f result).Steady) {blocks : List Fields} :
    ((m.within blocks).attempt >>= f).Steady := by
  refine bind (fun taken taken' => ?_) hf
  rw [attempt, Eval.within, hm taken taken']
  rfl

end Eval.Steady

/-- With deterministic functions, everything that the engine does is steady. -/
def steadiness : Invariant where
  holds := Eval.Steady
  admits := Program.Steady
  holds_pure _ := fun _ _ => rfl
  holds_fail _ := fun _ _ => rfl
  holds_bind := .bind
  holds_emit _ := fun _ _ => rfl
  holds_log _ := fun _ _ => rfl
  holds_refuse _ _ := fun _ _ => rfl
  admits_builtin := Builtin.deterministic
  admits_ask h := h
  holds_ask _ hm hk := .ask hm hk
  admits_record h := h.2
  holds_record {note next} k hp hk := by
    intro taken taken'
    -- the function is told different numbers here, but goes on in the same way
    have hsame := hp.1 (taken + 1) (taken' + 1)
    have hnote (n : Nat) : Eval.note note n = ⟨.ok (n + 1), [.noted note]⟩ := rfl
    rw [Eval.bind_of_ok (hnote taken), Eval.bind_of_ok (hnote taken'), hsame,
      hk (taken' + 1) (taken + (History.notes [.noted note]).length)
        (taken' + (History.notes [.noted note]).length)]

/-! ## Texts within templates -/

theorem length_flatMap_source (text : String) :
    ((Token.tokenize text.toList).flatMap Token.source).length = text.length := by
  rw [Token.flatMap_source_tokenize, String.length_toList]

/-- Behind its beginning `before`, the text itself leaves a placeholder open. -/
def LeavesOpen (text before : String) : Prop :=
  ∃ body, Token.tokenize text.toList = Token.tokenize before.toList ++ [.placeholder body false]

theorem LeavesOpen.unique {text before before' : String} (h : LeavesOpen text before)
    (h' : LeavesOpen text before') : before = before' := by
  obtain ⟨body, htokens⟩ := h
  obtain ⟨body', htokens'⟩ := h'
  have hsame := (List.append_inj' (htokens.symm.trans htokens') rfl).1
  have hsource := congrArg (List.flatMap Token.source) hsame
  rw [Token.flatMap_source_tokenize, Token.flatMap_source_tokenize] at hsource
  exact String.toList_injective hsource

/-- Either all placeholders of a text are closed, or all but the last one. -/
theorem closed_or_leavesOpen (text : String) :
    (∀ token ∈ Token.tokenize text.toList, token.Closed) ∨
      ∃ before, LeavesOpen text before ∧
        ∀ token ∈ Token.tokenize before.toList, token.Closed := by
  rcases Token.onlyLastOpen_tokenize text.toList with hall | ⟨first, body, hfirst, htokens⟩
  · exact .inl hall
  · have hbefore := Token.tokenize_flatMap_source htokens hfirst
    refine .inr ⟨String.ofList (first.flatMap Token.source), ⟨body, ?_⟩, ?_⟩
    · rw [String.toList_ofList, hbefore, htokens]
    · rwa [String.toList_ofList, hbefore]

namespace Context

/-- A text with values in place of its placeholders, where it stands at a position of a template. -/
def formatWithin (ctx : Context) (template : String) (position : Nat) (text : String) :
    Eval String := do
  return String.ofList
    (← ctx.engine.expand ctx template position (Token.tokenize text.toList))

variable {ctx : Context}

theorem format_eq_formatWithin (template : String) :
    ctx.format template = ctx.formatWithin template 0 template :=
  Engine.format_eq_expand ctx.engine ctx template

theorem formatWithin_append {front back : String}
    (hclosed : ∀ token ∈ Token.tokenize front.toList, token.Closed)
    (hseam : Seamless front.toList back.toList) (template : String) (position : Nat) :
    ctx.formatWithin template position (front ++ back) = (do
      let shown ← ctx.formatWithin template position front
      let more ← ctx.formatWithin template (position + front.length) back
      return shown ++ more) := by
  unfold formatWithin
  rw [String.toList_append, Token.tokenize_append hclosed hseam, Engine.expand_append,
    length_flatMap_source]
  simp only [bind_assoc, pure_bind, String.ofList_append]

theorem formatWithin_of_closed {text : String}
    (hclosed : ∀ token ∈ Token.tokenize text.toList, token.Closed) (template : String)
    (position : Nat) : ctx.formatWithin template position text = ctx.format text := by
  rw [format_eq_formatWithin, formatWithin, formatWithin,
    Engine.expand_of_closed hclosed template text position 0]

/-- Only the report of a placeholder that is left open tells where the text stands. -/
theorem formatWithin_of_leavesOpen (ctx : Context) {text before : String}
    (h : LeavesOpen text before) (hclosed : ∀ token ∈ Token.tokenize before.toList, token.Closed) :
    ∃ value : Eval (List Char), ∀ (template : String) (position : Nat),
      ctx.formatWithin template position text = (do
        let shown ← ctx.format before
        Engine.missBrace ctx template (position + before.length)
        let text ← value
        return shown ++ String.ofList text) := by
  obtain ⟨body, htokens⟩ := h
  refine ⟨do
    let value ← ctx.engine.expression ctx (String.ofList body)
    Eval.ofExcept value.text, fun template position => ?_⟩
  rw [← formatWithin_of_closed hclosed template position, formatWithin, formatWithin, htokens,
    Engine.expand_append, length_flatMap_source]
  simp [Engine.expand, Engine.render, Engine.shown, String.ofList_append]

/-- With deterministic functions, a part of a template shows the same whatever number of notes was
taken before. -/
theorem steady_formatWithin (hf : ctx.functions.All HostFunction.Deterministic)
    (front back : String) : (ctx.formatWithin (front ++ back) front.length back).Steady := by
  have hsource : (front ++ back).toList.drop front.length
      = (Token.tokenize back.toList).flatMap Token.source := by
    rw [Token.flatMap_source_tokenize, String.toList_append, ← String.length_toList,
      List.drop_left]
  exact ((steadiness.ready hf).expand hsource).2.bind fun _ _ _ => rfl

end Context

/-! ## Templates put together -/

/-- What a text does at the end of a template, beside what it does alone.

* `same`: it leaves no placeholder open, or a fault keeps it from coming that far;
* `raised`: in strict mode the fault names the whole template and the position there;
* `logged`: in tolerant mode the event names the position there, and nothing else changes. -/
inductive Displaced (ctx : Context) (front back : String) (taken : Nat) :
    Outcome String → Outcome String → Prop
  | same {o : Outcome String} :
      (∀ before, LeavesOpen back before →
        ∃ fault, (ctx.format before taken).result = .error fault) →
      Displaced ctx front back taken o o
  | raised {before shown : String} {earlier : History} :
      ctx.settings.strictTemplates = true → LeavesOpen back before →
      ctx.format before taken = ⟨.ok shown, earlier⟩ →
      Displaced ctx front back taken
        ⟨.error (.unterminated back before.length), earlier⟩
        ⟨.error (.unterminated (front ++ back) (front.length + before.length)), earlier⟩
  | logged {before shown : String} {earlier later : History} {result : Except Fault String} :
      ctx.settings.strictTemplates = false → LeavesOpen back before →
      ctx.format before taken = ⟨.ok shown, earlier⟩ →
      Displaced ctx front back taken
        ⟨result, earlier ++ .logged ⟨.unterminatedPlaceholder before.length, []⟩ :: later⟩
        ⟨result, earlier ++
          .logged ⟨.unterminatedPlaceholder (front.length + before.length), []⟩ :: later⟩

namespace Displaced

variable {ctx : Context} {front back before : String} {taken : Nat}

/-- A text without a report does the same everywhere. -/
theorem of_closed (hclosed : ∀ token ∈ Token.tokenize back.toList, token.Closed) :
    Displaced ctx front back taken (ctx.format back taken)
      (ctx.formatWithin (front ++ back) front.length back taken) := by
  rw [Context.formatWithin_of_closed hclosed]
  refine .same fun before hopen => ?_
  obtain ⟨body, htokens⟩ := hopen
  have hlast := hclosed (.placeholder body false) (by rw [htokens]; simp)
  cases hlast

/-- A text that leaves a placeholder open does the same up to there. -/
theorem of_leavesOpen (hopen : LeavesOpen back before)
    (hclosed : ∀ token ∈ Token.tokenize before.toList, token.Closed) :
    Displaced ctx front back taken (ctx.format back taken)
      (ctx.formatWithin (front ++ back) front.length back taken) := by
  obtain ⟨value, hvalue⟩ := ctx.formatWithin_of_leavesOpen hopen hclosed
  rw [Context.format_eq_formatWithin, hvalue, hvalue, Nat.zero_add]
  -- up to the open placeholder both do the same, and a fault before it ends both
  rcases (ctx.format before).apply_eq taken with ⟨fault, earlier, h⟩ | ⟨shown, earlier, h⟩
  · rw [Eval.bind_of_error h, Eval.bind_of_error h]
    refine .same fun before' hopen' => ?_
    obtain rfl := hopen.unique hopen'
    exact ⟨fault, by rw [h]⟩
  · rw [Eval.bind_of_ok h, Eval.bind_of_ok h]
    unfold Engine.missBrace
    cases hstrict : ctx.settings.strictTemplates with
    | true =>
      have hraised : Displaced ctx front back taken _ _ := .raised hstrict hopen h
      rw [← List.append_nil earlier] at hraised
      exact hraised
    | false => exact .logged hstrict hopen h

end Displaced

theorem displaced_formatWithin (ctx : Context) (front back : String) (taken : Nat) :
    Displaced ctx front back taken (ctx.format back taken)
      (ctx.formatWithin (front ++ back) front.length back taken) := by
  rcases closed_or_leavesOpen back with hclosed | ⟨before, hopen, hclosed⟩
  · exact .of_closed hclosed
  · exact .of_leavesOpen hopen hclosed

/-- A template that is put together from two, the first of which leaves no placeholder open. If the
first one faults, the whole does just the same. Otherwise the whole shows what the first one shows
and then what the second one shows, or faults as the second one does, and what happens on the way
is what happens in the first and then in the second one, save for the position at which the second
one reports a placeholder that it leaves open itself. -/
theorem format_append (ctx : Context) (hf : ctx.functions.All HostFunction.Deterministic)
    (front back : String) (hclosed : ∀ token ∈ Token.tokenize front.toList, token.Closed)
    (hseam : Seamless front.toList back.toList) (taken : Nat) :
    (∀ fault, (ctx.format front taken).result = .error fault →
      ctx.format (front ++ back) taken = ctx.format front taken) ∧
    ∀ shown, (ctx.format front taken).result = .ok shown →
      ∃ moved, Displaced ctx front back taken (ctx.format back taken) moved ∧
        (ctx.format (front ++ back) taken).result = moved.result.map (shown ++ ·) ∧
        (ctx.format (front ++ back) taken).history
          = (ctx.format front taken).history ++ moved.history := by
  have happend := ctx.formatWithin_append hclosed hseam (front ++ back) 0
  rw [Context.formatWithin_of_closed hclosed, ← Context.format_eq_formatWithin,
    Nat.zero_add] at happend
  rw [happend]
  rcases (ctx.format front).apply_eq taken with ⟨fault, history, h⟩ | ⟨shown, history, h⟩
  · rw [Eval.bind_of_error h, h]
    exact ⟨fun _ _ => rfl, fun shown hok => by cases hok⟩
  · rw [Eval.bind_of_ok h, h]
    refine ⟨fun fault herror => (by cases herror), fun shown' hok => ?_⟩
    cases hok
    refine ⟨_, displaced_formatWithin ctx front back taken, ?_⟩
    -- the second part starts with more notes taken than on its own, but does the same
    have hsteady := ctx.steady_formatWithin hf front back taken (taken + history.notes.length)
    rw [hsteady, Eval.map_apply]
    exact ⟨rfl, rfl⟩

/-- A data model with a price, and a function that expands what it is given. -/
def priceContext : Context :=
  Context.root (.map [(.str "price", .str "5")]) .null
    ⟨[("expand", Stock.function "expand" .format)], by decide⟩ Settings.standard
    ⟨⟨2026, 1, 25⟩, 12, 0, 0, 0, none⟩

/-- A first part with an escaped opening in a quoted argument, and a backslash at its end. -/
def priceFront : String := "$\x7bexpand('\\$\x7b')\x7d \\"

/-- A second part with a dollar at its start, and a placeholder that it leaves open. -/
def priceBack : String := "$$\x7bexpand(/price)\x7d, $\x7b/p"

theorem format_append_price :
    priceContext.functions.All HostFunction.Deterministic ∧
    (∀ token ∈ Token.tokenize priceFront.toList, token.Closed) ∧
    Seamless priceFront.toList priceBack.toList ∧
    (priceContext.format priceFront 0).result = .ok "$\x7b \\" ∧
    ∃ moved, Displaced priceContext priceFront priceBack 0 (priceContext.format priceBack 0) moved ∧
      (priceContext.format (priceFront ++ priceBack) 0).result
        = moved.result.map ("$\x7b \\" ++ ·) ∧
      (priceContext.format (priceFront ++ priceBack) 0).history
        = (priceContext.format priceFront 0).history ++ moved.history := by
  have hf : priceContext.functions.All HostFunction.Deterministic := by
    intro entry he
    rw [List.mem_singleton.1 he]
    have hformat : Stock.format ≠ .record := nofun
    exact Stock.deterministic "expand" hformat
  have hclosed : ∀ token ∈ Token.tokenize priceFront.toList, token.Closed := by
    have htokens : Token.tokenize priceFront.toList
        = [.placeholder "expand('\\$\x7b')".toList true, .literal ' ', .literal '\\'] := by cbv
    rw [htokens]
    decide
  have hseam : Seamless priceFront.toList priceBack.toList := by decide
  have hfront : (priceContext.format priceFront 0).result = .ok "$\x7b \\" := by cbv
  have happend := format_append priceContext hf priceFront priceBack hclosed hseam 0
  exact ⟨hf, hclosed, hseam, hfront, happend.2 _ hfront⟩

end LiveValue
