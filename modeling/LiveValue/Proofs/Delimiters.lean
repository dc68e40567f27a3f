import LiveValue.Proofs.BalancedBodies
import LiveValue.Proofs.CallSyntax
import LiveValue.Proofs.QuoteAgreement

/-!
# Delimiters that belong together

What a parenthesis or a quote opens is closed by the first character at which a scanner of the text
behind it would leave it again. What an opening `${` opens is closed by the brace that is matched.
Reading does not look for these characters: it takes away what stands at both ends of a call, of a
placeholder or of a quoted argument, and what it takes away belongs together only if the text in
between allows it.

* `Text.closing?`: the character that closes, for a scanner that goes step by step;
* `Text.Standing.closing?_quote_iff`: a quoted run closes behind its content;
* `Arguments.closing?_parenthesis_iff`: parentheses close behind a text in which all are paired;
* `delimiters_stripped`: what reading takes away, and when it belongs together.
-/

namespace LiveValue

open Text (Quote QuoteState RunContent Standing)

namespace Text

/-! ## What closes -/

/-- What stands in front of the first character that a step refuses, and what stands behind it. -/
def closing? {σ : Type} (step : σ → Char → Option σ) :
    σ → List Char → Option (List Char × List Char)
  | _, [] => none
  | p, c :: rest =>
      match step p c with
      | none => some ([], rest)
      | some p' => (closing? step p' rest).map (Prod.map (c :: ·) id)

section

variable {σ : Type} {step : σ → Char → Option σ} {p p' : σ} {c : Char}

theorem closing?_of_refused (h : step p c = none) (rest : List Char) :
    closing? step p (c :: rest) = some ([], rest) := by
  rw [closing?, h]

theorem closing?_of_taken (h : step p c = some p') {rest inside after : List Char} :
    closing? step p (c :: rest) = some (inside, after) ↔
      ∃ more, inside = c :: more ∧ closing? step p' rest = some (more, after) := by
  rw [closing?, h]
  constructor
  · intro hsome
    obtain ⟨⟨more, after⟩, hrest, heq⟩ := Option.map_eq_some_iff.1 hsome
    cases heq
    exact ⟨more, rfl, hrest⟩
  · rintro ⟨more, rfl, hrest⟩
    exact Option.map_eq_some_iff.2 ⟨(more, after), hrest, rfl⟩

end

/-! ## Closing quotes -/

namespace Standing

/-- The standing behind one more character within a quoted run; none behind the quote that ends the
run. -/
def within (standing : Standing) (c : Char) : Option Standing :=
  if standing.next c = .outside then none else some (standing.next c)

variable {q : Quote} {c : Char} {s content after : List Char}

theorem within_quote (q : Quote) : (inside q).within q.char = none := by
  have hend : (inside q).next q.char = .outside := by
    rw [next_inside q.char_ne_backslash, QuoteState.next, if_pos rfl, ofState]
  rw [within, if_pos hend]

theorem within_backslash (q : Quote) : (inside q).within '\\' = some (escaping q) := rfl

theorem within_escaped (q : Quote) (c : Char) : (escaping q).within c = some (inside q) := rfl

theorem within_char (hslash : c ≠ '\\') (hquote : c ≠ q.char) :
    (inside q).within c = some (inside q) := by
  have hstay : (inside q).next c = inside q := by
    rw [next_inside hslash, QuoteState.next, if_neg hquote, ofState]
  have hopen : inside q ≠ .outside := by simp
  rw [within, hstay, if_neg hopen]

theorem closing?_of_runContent (h : RunContent q content) (after : List Char) :
    closing? within (inside q) (content ++ q.char :: after) = some (content, after) := by
  induction h with
  | nil => exact closing?_of_refused (within_quote q) after
  | escape c _ ih =>
    refine (closing?_of_taken (within_backslash q)).2 ⟨_, rfl, ?_⟩
    exact (closing?_of_taken (within_escaped q c)).2 ⟨_, rfl, ih⟩
  | char hslash hquote _ ih =>
    exact (closing?_of_taken (within_char hslash hquote)).2 ⟨_, rfl, ih⟩

/-- Behind a backslash one more character is in the run, whatever it is. -/
theorem runContent_of_closing? :
    (closing? within (inside q) s = some (content, after) →
      s = content ++ q.char :: after ∧ RunContent q content) ∧
    (closing? within (escaping q) s = some (content, after) →
      ∃ c more, content = c :: more ∧ s = content ++ q.char :: after ∧ RunContent q more) := by
  induction s generalizing content with
  | nil => exact ⟨nofun, nofun⟩
  | cons c rest ih =>
    refine ⟨fun h => ?_, fun h => ?_⟩
    · by_cases hslash : c = '\\'
      · subst hslash
        obtain ⟨more, rfl, hrest⟩ := (closing?_of_taken (within_backslash q)).1 h
        obtain ⟨d, more, rfl, rfl, hcontent⟩ := ih.2 hrest
        exact ⟨rfl, .escape d hcontent⟩
      · by_cases hquote : c = q.char
        · subst hquote
          rw [closing?_of_refused (within_quote q)] at h
          cases h
          exact ⟨rfl, .nil⟩
        · obtain ⟨more, rfl, hrest⟩ := (closing?_of_taken (within_char hslash hquote)).1 h
          obtain ⟨rfl, hcontent⟩ := ih.1 hrest
          exact ⟨rfl, .char hslash hquote hcontent⟩
    · obtain ⟨more, rfl, hrest⟩ := (closing?_of_taken (within_escaped q c)).1 h
      obtain ⟨rfl, hcontent⟩ := ih.1 hrest
      exact ⟨c, more, rfl, rfl, hcontent⟩

/-- The quote that closes a run is the one behind its content. -/
theorem closing?_quote_iff :
    closing? within (inside q) s = some (content, after) ↔
      s = content ++ q.char :: after ∧ RunContent q content := by
  refine ⟨runContent_of_closing?.1, ?_⟩
  rintro ⟨rfl, h⟩
  exact closing?_of_runContent h after

end Standing

end Text

namespace Template

/-! ## Closing parentheses -/

namespace Arguments

/-- What a character adds to the depth of parentheses. Only outside of quotes it adds anything. -/
def weight (standing : Standing) (c : Char) : Int :=
  if standing = .outside then if c = '(' then 1 else if c = ')' then -1 else 0 else 0

/-- How many more parentheses a text opens than it closes, quoted ones aside. -/
def surplus : Standing → List Char → Int
  | _, [] => 0
  | standing, c :: rest => weight standing c + surplus (standing.next c) rest

/-- From a place on, a text closes what was opened there and what it opens itself, but no more than
that, and no quoted run is open behind it. -/
structure PairedFrom (p : Place) (s : List Char) : Prop where
  unquoted : p.standing.behind s = .outside
  nonneg : ∀ t, t <+: s → 0 ≤ p.depth + surplus p.standing t
  even : p.depth + surplus p.standing s = 0

/-- The texts in which every parenthesis belongs to another one and every quoted run is complete. -/
def Paired (s : List Char) : Prop := PairedFrom .ground s

namespace Place

/-- The place that splitting comes to behind one more character within parentheses; none behind the
parenthesis that closes them. -/
def within (p : Place) (c : Char) : Option Place :=
  if c = ')' ∧ p = ground then none else some (p.next c)

variable {p : Place} {c : Char}

theorem within_close : ground.within ')' = none := rfl

theorem within_other (h : ¬(c = ')' ∧ p = ground)) : p.within c = some (p.next c) := if_neg h

/-- Unless it closes what is not open, a character adds its weight to the depth. -/
theorem nesting_eq {depth : Nat} (h : ¬(c = ')' ∧ depth = 0)) :
    (nesting depth c : Int) = depth + weight .outside c := by
  unfold nesting weight
  by_cases hopen : c = '('
  · simp [hopen]
  · by_cases hclose : c = ')'
    · have hdepth : depth ≠ 0 := fun hzero => h ⟨hclose, hzero⟩
      simp [hclose]
      omega
    · simp [hopen, hclose]

theorem depth_next (h : ¬(c = ')' ∧ p = ground)) :
    ((p.next c).depth : Int) = p.depth + weight p.standing c := by
  obtain ⟨standing, depth⟩ := p
  by_cases hstanding : standing = .outside
  · subst hstanding
    have hclose : ¬(c = ')' ∧ depth = 0) := by
      rintro ⟨rfl, rfl⟩
      exact h ⟨rfl, rfl⟩
    exact nesting_eq hclose
  · rw [next_of_ne_outside hstanding, weight, if_neg hstanding, Int.add_zero]

end Place

theorem pairedFrom_cons {p : Place} {c : Char} {s : List Char} (h : ¬(c = ')' ∧ p = .ground)) :
    PairedFrom p (c :: s) ↔ PairedFrom (p.next c) s := by
  have hsurplus (t : List Char) : p.depth + surplus p.standing (c :: t)
      = (p.next c).depth + surplus (p.next c).standing t := by
    rw [surplus, Place.depth_next h, Int.add_assoc]
    rfl
  constructor
  · rintro ⟨hunquoted, hnonneg, heven⟩
    refine ⟨hunquoted, fun t ht => ?_, hsurplus s ▸ heven⟩
    rw [← hsurplus]
    exact hnonneg (c :: t) (List.cons_prefix_cons.2 ⟨rfl, ht⟩)
  · rintro ⟨hunquoted, hnonneg, heven⟩
    refine ⟨hunquoted, fun t ht => ?_, (hsurplus s).trans heven⟩
    rcases List.prefix_cons_iff.1 ht with rfl | ⟨more, rfl, hmore⟩
    · exact Int.natCast_nonneg p.depth
    · rw [hsurplus]
      exact hnonneg more hmore

theorem pairedFrom_nil {p : Place} : PairedFrom p [] ↔ p = .ground := by
  constructor
  · rintro ⟨hunquoted, -, heven⟩
    obtain ⟨standing, depth⟩ := p
    obtain rfl : standing = .outside := hunquoted
    obtain rfl : depth = 0 := Int.ofNat_eq_zero.1 heven
    rfl
  · rintro rfl
    refine ⟨rfl, fun t ht => ?_, rfl⟩
    rw [List.prefix_nil.1 ht]
    decide

/-- A parenthesis too many is closed where nothing is open. -/
theorem not_pairedFrom_close (s : List Char) : ¬PairedFrom .ground (')' :: s) := by
  intro h
  have hfirst : (0 : Int) ≤ -1 := h.nonneg [')'] (List.prefix_append [')'] s)
  exact absurd hfirst (by decide)

/-- The parenthesis that closes is the one behind a text in which all are paired. -/
theorem closing?_parenthesis_iff {p : Place} {s inside after : List Char} :
    Text.closing? Place.within p s = some (inside, after) ↔
      s = inside ++ ')' :: after ∧ PairedFrom p inside := by
  induction s generalizing p inside with
  | nil => simp [Text.closing?]
  | cons c rest ih =>
    by_cases hclose : c = ')' ∧ p = .ground
    · obtain ⟨rfl, rfl⟩ := hclose
      rw [Text.closing?_of_refused Place.within_close]
      constructor
      · intro h
        cases h
        exact ⟨rfl, pairedFrom_nil.2 rfl⟩
      · rintro ⟨htext, hpaired⟩
        cases inside with
        | nil =>
          cases htext
          rfl
        | cons d inside =>
          cases htext
          exact absurd hpaired (not_pairedFrom_close inside)
    · rw [Text.closing?_of_taken (Place.within_other hclose)]
      constructor
      · rintro ⟨more, rfl, hrest⟩
        obtain ⟨rfl, hpaired⟩ := ih.1 hrest
        exact ⟨rfl, (pairedFrom_cons hclose).2 hpaired⟩
      · rintro ⟨htext, hpaired⟩
        cases inside with
        | nil =>
          cases htext
          exact absurd ⟨rfl, pairedFrom_nil.1 hpaired⟩ hclose
        | cons d inside =>
          cases htext
          exact ⟨inside, rfl, ih.2 ⟨rfl, (pairedFrom_cons hclose).1 hpaired⟩⟩

end Arguments

/-! ## What reading strips -/

namespace Expression

/-- Only the last character of what follows the name and the parenthesis tells whether a text is a
call. -/
theorem read_open (name : CallName) {text rest : List Char}
    (h : Text.trim text = name.text.toList ++ '(' :: rest) :
    read text =
      if rest.getLast? = some ')' then
        .call (String.ofList (Text.trim text)) name.text
          ((Arguments.split rest.dropLast).map String.ofList)
      else .relative (String.ofList (Text.trim text)) := by
  obtain ⟨c, more, hname, hstart, -⟩ := name.toList_eq
  have hcall : call? (Text.trim text) =
      if rest.getLast? = some ')' then some (name.text.toList, rest.dropLast) else none := by
    unfold call?
    rw [h, name.span_open, hname]
    simp only [hstart, true_and]
  by_cases hlast : rest.getLast? = some ')'
  · rw [if_pos hlast] at hcall ⊢
    exact read_eq_call_iff.2 ⟨_, _, hcall, rfl, String.ofList_toList.symm, rfl⟩
  · rw [if_neg hlast] at hcall ⊢
    have hfirst : Text.trim text = c :: (more ++ '(' :: rest) := by rw [h, hname, List.cons_append]
    unfold read ofTrimmed
    split
    · next hnil =>
      rw [hnil] at hfirst
      cases hfirst
    · next hslash =>
      rw [hslash] at hfirst
      cases hfirst
      cases hstart
    · rw [hcall]

theorem read_eq_relative_iff (name : CallName) {text rest : List Char}
    (h : Text.trim text = name.text.toList ++ '(' :: rest) :
    read text = .relative (String.ofList (Text.trim text)) ↔ rest.getLast? ≠ some ')' := by
  rw [read_open name h]
  split
  · next hlast => exact iff_of_false nofun (not_not.2 hlast)
  · next hlast => exact iff_of_true rfl hlast

end Expression

/-- The brace at the end of a text is the one that is matched if what stands in front of it is
balanced. -/
theorem Body.read_eq_iff_balanced {body : List Char} :
    read (body ++ ['}']) = ⟨body, [], true⟩ ↔ Balanced body := by
  refine ⟨fun hread => ?_, fun hbalanced => read_of_balanced hbalanced []⟩
  have hclosed : (read (body ++ ['}'])).closed = true := by rw [hread]
  have hbalanced := balanced_of_closed hclosed
  rwa [hread] at hbalanced

namespace Argument

theorem quoted?_eq_some_iff {s content : List Char} :
    quoted? s = some content ↔
      ∃ q : Quote, (s = [q.char] ∧ content = []) ∨
        ∃ written, s = q.char :: (written ++ [q.char]) ∧
          content = Text.unescape '\\' (Text.unescape q.char written) := by
  constructor
  · intro h
    cases s with
    | nil => cases h
    | cons c rest =>
      rw [quoted?] at h
      split at h
      · next hends =>
        obtain ⟨q, hq⟩ := Option.isSome_iff_exists.1 hends.1
        obtain rfl := Quote.eq_char_of_ofChar? hq
        rw [Text.unquote?, Option.some_inj] at h
        refine ⟨q, ?_⟩
        rcases List.eq_nil_or_concat' rest with rfl | ⟨written, last, rfl⟩
        · exact .inl ⟨rfl, h.symm⟩
        · rw [← List.cons_append, List.getLast?_concat, Option.some_inj] at hends
          obtain ⟨-, rfl⟩ := hends
          rw [List.dropLast_concat] at h
          exact .inr ⟨written, rfl, h.symm⟩
      · cases h
  · rintro ⟨q, ⟨rfl, rfl⟩ | ⟨written, rfl, rfl⟩⟩
    · cases q <;> rfl
    · have hends : (Quote.ofChar? q.char).isSome = true ∧
          (q.char :: (written ++ [q.char])).getLast? = some q.char := by
        rw [Quote.ofChar?_char, ← List.cons_append, List.getLast?_concat]
        exact ⟨rfl, rfl⟩
      rw [quoted?, if_pos hends, Text.unquote?, List.dropLast_concat]

/-- What starts with a quote is neither a placeholder nor a reference. -/
theorem read_of_quote {raw : String} {q : Quote} {rest : List Char}
    (h : Text.trim raw.toList = q.char :: rest) :
    read raw = .literal (String.ofList (Text.trim raw.toList)) := by
  rw [read, h]
  cases q <;> exact Term.ofTrimmed_literal (by decide) (by decide) (by decide)

end Argument

end Template

open Template

theorem Context.argument_of_quoted {ctx : Context} {raw : String} {content : List Char}
    (h : Argument.quoted? (Text.trim raw.toList) = some content) :
    ctx.argument raw = pure (.str (String.ofList content)) := by
  have hread : Argument.read raw = .literal (String.ofList (Text.trim raw.toList)) := by
    obtain ⟨q, ⟨hlone, -⟩ | ⟨written, hquotes, -⟩⟩ := Argument.quoted?_eq_some_iff.1 h
    · exact Argument.read_of_quote hlone
    · exact Argument.read_of_quote hquotes
  rw [argument_of_literal hread, Argument.literalValue, String.toList_ofList, h]
  rfl

/-- **Delimiters that are stripped.** Reading looks at both ends of a text and not at what is in
between, so the delimiters that it takes away belong together exactly if everything between them is
paired, balanced or the content of one quoted run.

* The parenthesis at the end of a call closes the one behind the name exactly if the written list is
  paired. A text that goes on behind the parenthesis that closes is a relative path, unless it ends
  with another one.
* The brace at the end of an argument that is a placeholder is the one that is matched exactly if
  the body is balanced.
* The quote at the end of an argument that is unquoted closes the one at its start exactly if what
  is written in between is the content of a run. A quote alone is unquoted, too. -/
theorem delimiters_stripped (ctx : Context) (text : List Char) (arg : String) :
    (∀ source name args, Expression.read text = .call source name args →
      ∃ raw, Text.trim text = name.toList ++ '(' :: (raw ++ [')']) ∧
        args = (Arguments.split raw).map String.ofList ∧
        (Text.closing? Arguments.Place.within .ground (raw ++ [')']) = some (raw, []) ↔
          Arguments.Paired raw)) ∧
    (∀ (name : CallName) rest inside after,
      Text.trim text = name.text.toList ++ '(' :: rest →
      Text.closing? Arguments.Place.within .ground rest = some (inside, after) → after ≠ [] →
      (Expression.read text = .relative (String.ofList (Text.trim text)) ↔
        after.getLast? ≠ some ')')) ∧
    (∀ body, Argument.read arg = .placeholder (String.ofList body) →
      Text.trim arg.toList = '$' :: '{' :: (body ++ ['}']) ∧
        (Body.startingAt (Text.trim arg.toList) 2 = ⟨body, [], true⟩ ↔ Balanced body)) ∧
    (∀ content, Argument.quoted? (Text.trim arg.toList) = some content →
      ctx.argument arg = pure (.str (String.ofList content)) ∧
      ∃ q : Quote, (Text.trim arg.toList = [q.char] ∧ content = []) ∨
        ∃ written, Text.trim arg.toList = q.char :: (written ++ [q.char]) ∧
          content = Text.unescape '\\' (Text.unescape q.char written) ∧
          (Text.closing? Standing.within (.inside q) (written ++ [q.char]) = some (written, []) ↔
            RunContent q written)) := by
  refine ⟨?_, ?_, ?_, ?_⟩
  · intro source name args hread
    obtain ⟨called, raw, hcall, -, rfl, hargs⟩ := Expression.read_eq_call_iff.1 hread
    refine ⟨raw, ?_, hargs, ?_⟩
    · rw [String.toList_ofList]
      exact (Expression.eq_of_call? hcall).1
    · exact Arguments.closing?_parenthesis_iff.trans (and_iff_right rfl)
  · intro name rest inside after htext hclosing hafter
    obtain ⟨rfl, -⟩ := Arguments.closing?_parenthesis_iff.1 hclosing
    have hlast : (inside ++ ')' :: after).getLast? = after.getLast? := by
      rw [List.getLast?_append_of_ne_nil _ (List.cons_ne_nil _ _),
        List.getLast?_cons_of_ne_nil hafter]
    rw [Expression.read_eq_relative_iff name htext, hlast]
  · intro body hread
    have htext : Text.trim arg.toList = '$' :: '{' :: (body ++ ['}']) :=
      Argument.eq_of_placeholder hread
    refine ⟨htext, ?_⟩
    rw [htext]
    exact Body.read_eq_iff_balanced
  · intro content hquoted
    refine ⟨Context.argument_of_quoted hquoted, ?_⟩
    obtain ⟨q, hlone | ⟨written, hquotes, hcontent⟩⟩ := Argument.quoted?_eq_some_iff.1 hquoted
    · exact ⟨q, .inl hlone⟩
    · refine ⟨q, .inr ⟨written, hquotes, hcontent, ?_⟩⟩
      exact Standing.closing?_quote_iff.trans (and_iff_right rfl)

/-- Delimiters that are nested, quoted and escaped, and text behind a call. -/
theorem delimiters_stripped_nested :
    Expression.read " f((1), ')') ".toList = .call "f((1), ')')" "f" ["(1)", "')'"] ∧
    Arguments.Paired "(1), ')'".toList ∧
    Expression.read "f((1)) + 2".toList = .relative "f((1)) + 2" ∧
    Argument.read "$\x7bg($\x7ba\x7d, '\x7d')\x7d" = .placeholder "g($\x7ba\x7d, '\x7d')" ∧
    Balanced "g($\x7ba\x7d, '\x7d')".toList ∧
    listContext.argument " 'it\\'s' " = pure (.str "it's") ∧
    RunContent .single "it\\'s".toList := by
  have hreadCall : Expression.read " f((1), ')') ".toList
      = .call "f((1), ')')" "f" ["(1)", "')'"] := by cbv
  have hreadBody : Argument.read "$\x7bg($\x7ba\x7d, '\x7d')\x7d"
      = .placeholder "g($\x7ba\x7d, '\x7d')" := by cbv
  have hunquoted : Argument.quoted? (Text.trim " 'it\\'s' ".toList) = some "it's".toList := by cbv
  obtain ⟨hcall, -, hplaceholder, -⟩ := delimiters_stripped listContext " f((1), ')') ".toList
    "$\x7bg($\x7ba\x7d, '\x7d')\x7d"
  obtain ⟨-, hbehind, -, hquoted⟩ :=
    delimiters_stripped listContext "f((1)) + 2".toList " 'it\\'s' "
  refine ⟨hreadCall, ?_, ?_, hreadBody, ?_, ?_, ?_⟩
  · obtain ⟨raw, htext, -, hcloses⟩ := hcall _ _ _ hreadCall
    have htrim : Text.trim " f((1), ')') ".toList
        = "f".toList ++ '(' :: ("(1), ')'".toList ++ [')']) := by cbv
    rw [htrim] at htext
    obtain rfl : "(1), ')'".toList = raw :=
      List.append_cancel_right (List.cons.inj (List.append_cancel_left htext)).2
    exact hcloses.1 (by cbv)
  · have htrim : Text.trim "f((1)) + 2".toList = "f".toList ++ '(' :: "(1)) + 2".toList := by cbv
    have hcloses : Text.closing? Arguments.Place.within .ground "(1)) + 2".toList
        = some ("(1)".toList, " + 2".toList) := by cbv
    exact (hbehind ⟨"f", by decide⟩ _ _ _ htrim hcloses (by decide)).2 (by decide)
  · obtain ⟨-, hmatched⟩ := hplaceholder "g($\x7ba\x7d, '\x7d')".toList hreadBody
    exact hmatched.1 (by cbv)
  · exact (hquoted _ hunquoted).1
  · obtain ⟨-, q, hparts⟩ := hquoted _ hunquoted
    have htrim : Text.trim " 'it\\'s' ".toList = '\'' :: ("it\\'s".toList ++ ['\'']) := by cbv
    rw [htrim] at hparts
    rcases hparts with ⟨hlone, -⟩ | ⟨written, htext, -, hcloses⟩
    · cases (List.cons.inj hlone).2
    · obtain ⟨hquote, hrest⟩ := List.cons.inj htext
      cases q with
      | single =>
        obtain rfl : "it\\'s".toList = written := List.append_cancel_right hrest
        exact hcloses.1 (by cbv)
      | double => exact absurd hquote (by decide)

/-- Two calls, two placeholders and two quoted runs side by side are each read as one, and a quote
that is escaped or stands alone counts as one that closes. -/
theorem delimiters_stripped_side_by_side :
    (Expression.read "f(a) + g(b)".toList = .call "f(a) + g(b)" "f" ["a) + g(b"] ∧
      Text.closing? Arguments.Place.within .ground "a) + g(b)".toList
        = some (['a'], " + g(b)".toList)) ∧
    (Argument.read "$\x7ba\x7d$\x7bb\x7d" = .placeholder "a\x7d$\x7bb" ∧
      Body.startingAt "$\x7ba\x7d$\x7bb\x7d".toList 2 = ⟨['a'], "$\x7bb\x7d".toList, true⟩) ∧
    ((listContext.argument "'a' + 'b'" 0).result = .ok (.str "a' + 'b") ∧
      Text.closing? Standing.within (.inside .single) "a' + 'b'".toList
        = some (['a'], " + 'b'".toList)) ∧
    ((listContext.argument "'a\\'" 0).result = .ok (.str "a\\") ∧
      Text.closing? Standing.within (.inside .single) "a\\'".toList = none) ∧
    ((listContext.argument "'" 0).result = .ok (.str "") ∧
      Text.closing? Standing.within (.inside .single) [] = none) := by
  refine ⟨⟨?_, ?_⟩, ⟨?_, ?_⟩, ⟨?_, ?_⟩, ⟨?_, ?_⟩, ?_, ?_⟩ <;> cbv

end LiveValue
