import LiveValue.Proofs.Quoting
import LiveValue.Proofs.Tokens

/-!
# Balanced bodies

The matching of braces counts openings and keeps a quote state. What it accepts can also be said
without a scan, by a grammar: a body is balanced if every `${` in it has a `}` of its own and every
quoted run is complete. A placeholder is closed just where a balanced text and a brace follow.

* `Body.scan_append_of_balanced`: the scan goes over a balanced text and stands as before;
* `Body.closes_text_of_closed`: a scan that ends has gone over balanced texts;
* `Body.closed_iff_balanced`: the matching of braces and the grammar.
-/

namespace LiveValue

open Text (Quote QuoteState)

/-! ## The grammar -/

/-- What can stand between the quotes of a complete quoted run: a backslash takes the next character
along, and a quote of the same kind stands there only so. -/
inductive Text.RunContent (q : Quote) : List Char → Prop
  | nil : RunContent q []
  | escape (c : Char) {s : List Char} : RunContent q s → RunContent q ('\\' :: c :: s)
  | char {c : Char} {s : List Char} : c ≠ '\\' → c ≠ q.char → RunContent q s →
      RunContent q (c :: s)

namespace Template

open Text (RunContent)

/-- The texts in which every opening is closed and every quoted run complete.

* `char`: no quote, no closing brace, and no `$` that opens a placeholder;
* `quoted`: a complete quoted run, whatever stands in it;
* `nested`: a placeholder with a balanced body. -/
inductive Balanced : List Char → Prop
  | nil : Balanced []
  | char {c : Char} {b : List Char} : Quote.ofChar? c = none → c ≠ '}' →
      ¬['$', '{'] <+: c :: b → Balanced b → Balanced (c :: b)
  | quoted (q : Quote) {content b : List Char} : RunContent q content → Balanced b →
      Balanced (q.char :: (content ++ q.char :: b))
  | nested {inner b : List Char} : Balanced inner → Balanced b →
      Balanced ('$' :: '{' :: (inner ++ '}' :: b))

namespace Body

/-! ## The scan goes over balanced texts -/

theorem push_push (first second : List Char) (b : Body) :
    (b.push second).push first = b.push (first ++ second) := by
  simp [push]

/-- The scan leaves a quoted run at the closing quote. -/
theorem scan_append_of_runContent {q : Quote} {content : List Char} (h : RunContent q content)
    (depth : Nat) (rest : List Char) :
    scan (.inside q) depth (content ++ q.char :: rest)
      = (scan .scanning depth rest).push (content ++ [q.char]) := by
  induction h with
  | nil =>
    have hend : (QuoteState.inside q).next q.char = .scanning := if_pos rfl
    rw [List.nil_append, scan_inside q.char_ne_backslash, hend]
    rfl
  | escape c _ ih =>
    rw [List.cons_append, List.cons_append, scan_escape, ih, push_push]
    rfl
  | char hslash hquote _ ih =>
    have hstay : (QuoteState.inside q).next _ = .inside q := if_neg hquote
    rw [List.cons_append, scan_inside hslash, hstay, ih, push_push]
    rfl

/-- A character that neither opens nor closes anything. -/
theorem scan_char {c : Char} {rest : List Char} (hquote : Quote.ofChar? c = none)
    (hbrace : c ≠ '}') (hopen : ¬['$', '{'] <+: c :: rest) (depth : Nat) :
    scan .scanning depth (c :: rest) = (scan .scanning depth rest).push [c] := by
  by_cases hdollar : c = '$'
  · subst hdollar
    refine scan_dollar fun hhead => hopen ?_
    obtain ⟨rest', rfl⟩ := List.head?_eq_some_iff.1 hhead
    exact ⟨rest', rfl⟩
  · have hstay : QuoteState.scanning.next c = .scanning := by
      simp only [QuoteState.next, hquote]
    rw [scan_other hbrace hdollar, hstay]

/-- Behind a balanced text the scan stands as in front of it, unless what follows makes an opening
out of its last character. -/
theorem scan_append_of_balanced {b : List Char} (h : Balanced b) (depth : Nat) {rest : List Char}
    (hrest : rest.head? ≠ some '{') :
    scan .scanning depth (b ++ rest) = (scan .scanning depth rest).push b := by
  induction h generalizing depth rest with
  | nil => rfl
  | @char c b hquote hbrace hopen _ ih =>
    have hopens : ¬['$', '{'] <+: c :: (b ++ rest) := by
      rw [List.cons_prefix_cons] at hopen ⊢
      rintro ⟨rfl, hfront⟩
      cases b with
      | nil =>
        obtain ⟨rest', rfl⟩ := hfront
        exact hrest rfl
      | cons d b =>
        obtain ⟨rfl, -⟩ := List.cons_prefix_cons.1 hfront
        exact hopen ⟨rfl, b, rfl⟩
    rw [List.cons_append, scan_char hquote hbrace hopens, ih depth hrest, push_push]
    rfl
  | @quoted q content b hcontent _ ih =>
    have hstart : QuoteState.scanning.next q.char = .inside q := by
      simp only [QuoteState.next, Quote.ofChar?_char]
    have hbrace : q.char ≠ '}' := by cases q <;> decide
    have hdollar : q.char ≠ '$' := by cases q <;> decide
    rw [List.cons_append, List.append_assoc, List.cons_append, scan_other hbrace hdollar, hstart,
      scan_append_of_runContent hcontent, ih depth hrest, push_push, push_push]
    simp
  | @nested inner b _ _ ihinner ih =>
    have hclose : ('}' :: (b ++ rest)).head? ≠ some '{' := by simp
    rw [List.cons_append, List.cons_append, List.append_assoc, List.cons_append, scan_open,
      ihinner (depth + 1) hclose, scan_close, ih depth hrest, push_push, push_push, push_push]
    simp

theorem read_of_balanced {b : List Char} (h : Balanced b) (rest : List Char) :
    read (b ++ '}' :: rest) = ⟨b, rest, true⟩ := by
  have hclose : ('}' :: rest).head? ≠ some '{' := by simp
  rw [read, scan_append_of_balanced h 0 hclose, scan_end]
  simp [push]

/-! ## A scan that ends has gone over balanced texts -/

/-- What a scan goes over from within a number of openings up to the brace that ends it: a balanced
text for each level, with the closing braces in between. -/
inductive Closes : Nat → List Char → Prop
  | last {b : List Char} : Balanced b → Closes 0 b
  | more {depth : Nat} {b t : List Char} : Balanced b → Closes depth t →
      Closes (depth + 1) (b ++ '}' :: t)

namespace Closes

variable {depth : Nat} {t : List Char}

theorem char {c : Char} (hquote : Quote.ofChar? c = none) (hbrace : c ≠ '}')
    (hopen : ¬['$', '{'] <+: c :: t) (h : Closes depth t) : Closes depth (c :: t) := by
  cases h with
  | last hb => exact .last (.char hquote hbrace hopen hb)
  | @more depth b t hb ht =>
    have hfront : c :: b <+: c :: (b ++ '}' :: t) := ⟨'}' :: t, rfl⟩
    exact .more (.char hquote hbrace (fun hopens => hopen (hopens.trans hfront)) hb) ht

theorem quoted (q : Quote) {content : List Char} (hcontent : RunContent q content)
    (h : Closes depth t) : Closes depth (q.char :: (content ++ q.char :: t)) := by
  cases h with
  | last hb => exact .last (.quoted q hcontent hb)
  | @more depth b t hb ht =>
    have hmore := Closes.more (.quoted q hcontent hb) ht
    rwa [List.cons_append, List.append_assoc, List.cons_append] at hmore

/-- A further opening is closed by the first of the braces. -/
theorem nested (h : Closes (depth + 1) t) : Closes depth ('$' :: '{' :: t) := by
  cases h with
  | @more _ inner t hinner ht =>
    cases ht with
    | last hb => exact .last (.nested hinner hb)
    | @more depth b t hb ht =>
      have hmore := Closes.more (.nested hinner hb) ht
      rwa [List.cons_append, List.cons_append, List.append_assoc, List.cons_append] at hmore

end Closes

/-- What a scan goes over from a state on: a quoted run that it stands in ends first. -/
def ClosesFrom : QuoteState → Nat → List Char → Prop
  | .scanning, depth, t => Closes depth t
  | .inside q, depth, t =>
      ∃ content rest, t = content ++ q.char :: rest ∧ RunContent q content ∧ Closes depth rest

theorem closes_text_of_closed {state : QuoteState} {depth : Nat} {s : List Char}
    (h : (scan state depth s).closed = true) :
    ClosesFrom state depth (scan state depth s).text := by
  fun_induction scan state depth s with
  | case1 | case2 => cases h
  | case3 q depth d rest ih =>
    obtain ⟨content, rest', htext, hcontent, hcloses⟩ := ih h
    refine ⟨'\\' :: d :: content, rest', ?_, .escape d hcontent, hcloses⟩
    rw [push, htext]
    rfl
  | case4 q depth c rest hc ih =>
    have hrest := ih h
    by_cases hquote : c = q.char
    · have hend : (QuoteState.inside q).next c = .scanning := if_pos hquote
      rw [hend] at hrest ⊢
      subst hquote
      exact ⟨[], _, rfl, .nil, hrest⟩
    · have hstay : (QuoteState.inside q).next c = .inside q := if_neg hquote
      rw [hstay] at hrest ⊢
      obtain ⟨content, rest', htext, hcontent, hcloses⟩ := hrest
      refine ⟨c :: content, rest', ?_, .char hc hquote hcontent, hcloses⟩
      rw [push, htext]
      rfl
  | case5 rest => exact .last .nil
  | case6 rest depth ih => exact Closes.more .nil (ih h)
  | case7 depth rest _ ih => exact Closes.nested (ih h)
  | case8 depth rest hrest _ ih =>
    refine Closes.char (by decide) (by decide) (fun hopens => ?_) (ih h)
    -- the text of the scan is a beginning of what is left, so nothing is opened there either
    obtain ⟨-, hfront⟩ := List.cons_prefix_cons.1 hopens
    have hsource : (scan .scanning depth rest).text <+: rest := by
      have hall := source_append_rest_scan .scanning depth rest
      rw [source, List.append_assoc] at hall
      exact ⟨_, hall⟩
    obtain ⟨rest', hrest'⟩ := hfront.trans hsource
    exact hrest rest' hrest'.symm
  | case9 depth c rest hbrace hdollar ih =>
    have hrest := ih h
    cases hquote : Quote.ofChar? c with
    | none =>
      have hstay : QuoteState.scanning.next c = .scanning := by
        simp only [QuoteState.next, hquote]
      rw [hstay] at hrest ⊢
      refine Closes.char hquote hbrace (fun hopens => ?_) hrest
      exact hdollar (List.cons_prefix_cons.1 hopens).1.symm
    | some q =>
      have hstart : QuoteState.scanning.next c = .inside q := by
        simp only [QuoteState.next, hquote]
      rw [hstart] at hrest ⊢
      obtain ⟨content, rest', htext, hcontent, hcloses⟩ := hrest
      have hquoted := Closes.quoted q hcontent hcloses
      rw [push, htext, Quote.eq_char_of_ofChar? hquote]
      exact hquoted

theorem balanced_of_closed {s : List Char} (h : (read s).closed = true) :
    Balanced (read s).text := by
  have hcloses : Closes 0 (read s).text := closes_text_of_closed h
  cases hcloses with
  | last hb => exact hb

/-! ## Positions of a template -/

/-- From a position of a template on, a balanced text stands and then a closing brace. -/
structure ClosesAt (source : List Char) (start : Nat) (b rest : List Char) : Prop where
  balanced : Balanced b
  drop_eq : source.drop start = b ++ '}' :: rest

namespace ClosesAt

variable {source : List Char} {start : Nat} {b rest : List Char}

theorem startingAt_eq (h : ClosesAt source start b rest) :
    startingAt source start = ⟨b, rest, true⟩ := by
  rw [startingAt, h.drop_eq, read_of_balanced h.balanced]

theorem stop_eq (h : ClosesAt source start b rest) :
    stop source start = start + b.length + 1 := by
  rw [stop, h.startingAt_eq]
  rfl

theorem unique {b' rest' : List Char} (h : ClosesAt source start b rest)
    (h' : ClosesAt source start b' rest') : b' = b :=
  congrArg Body.text (h'.startingAt_eq.symm.trans h.startingAt_eq)

/-- What stands before the start, and what stands behind the brace, can be changed. -/
theorem moved (h : ClosesAt source start b rest) (front rest' : List Char) :
    ClosesAt (front ++ source.take (stop source start) ++ rest') (front.length + start) b
      rest' := by
  refine ⟨h.balanced, ?_⟩
  have hstart : start ≤ source.length := by
    refine Nat.le_of_not_lt fun hlate => ?_
    have hdrop := h.drop_eq
    rw [List.drop_of_length_le (Nat.le_of_lt hlate)] at hdrop
    exact List.append_ne_nil_of_right_ne_nil b (List.cons_ne_nil _ _) hdrop.symm
  have htake : source.take (stop source start) = source.take start ++ (b ++ ['}']) := by
    rw [h.stop_eq, Nat.add_assoc, List.take_add, h.drop_eq, List.take_length_add_append]
    rfl
  rw [htake, List.append_assoc, List.append_assoc, List.drop_length_add_append,
    List.drop_left' (List.length_take_of_le hstart), List.append_assoc]
  rfl

end ClosesAt

theorem exists_closesAt {source : List Char} {start : Nat}
    (h : (startingAt source start).closed = true) :
    ∃ b rest, ClosesAt source start b rest := by
  refine ⟨(startingAt source start).text, (startingAt source start).rest,
    balanced_of_closed h, ?_⟩
  have hsource := source_append_rest_read (source.drop start)
  rw [Body.source, ← startingAt, h, if_pos rfl, List.append_assoc] at hsource
  exact hsource.symm

/-- A placeholder is closed just where a balanced text and a closing brace follow its opening. There
is only one such text, it is the body, and reading goes on behind the brace; neither what stands
behind the brace nor what stands before the opening has a part in that. Where no such text follows,
the body is all that is left. -/
theorem closed_iff_balanced (source : List Char) (start : Nat) :
    ((startingAt source start).closed = true ↔ ∃ b rest, ClosesAt source start b rest) ∧
    (∀ b rest, ClosesAt source start b rest →
      (∀ b' rest', ClosesAt source start b' rest' → b' = b) ∧
      startingAt source start = ⟨b, rest, true⟩ ∧
      stop source start = start + b.length + 1 ∧
      ∀ front rest',
        let changed := front ++ source.take (stop source start) ++ rest'
        startingAt changed (front.length + start) = ⟨b, rest', true⟩ ∧
          stop changed (front.length + start) = front.length + stop source start) ∧
    ((startingAt source start).closed = false →
      (startingAt source start).text = source.drop start ∧ stop source start = source.length) := by
  refine ⟨⟨exists_closesAt, ?_⟩, ?_, ?_⟩
  · rintro ⟨b, rest, h⟩
    rw [h.startingAt_eq]
  · intro b rest h
    refine ⟨fun b' rest' h' => h.unique h', h.startingAt_eq, h.stop_eq, ?_⟩
    intro front rest' changed
    have hmoved : ClosesAt changed (front.length + start) b rest' := h.moved front rest'
    refine ⟨hmoved.startingAt_eq, ?_⟩
    rw [hmoved.stop_eq, h.stop_eq, Nat.add_assoc, Nat.add_assoc, Nat.add_assoc]
  · intro hopen
    have hrest : (startingAt source start).rest = [] := rest_read_of_open hopen
    have hsource := source_append_rest_read (source.drop start)
    rw [Body.source, ← startingAt, hopen, if_neg (by decide), hrest, List.append_nil,
      List.append_nil] at hsource
    refine ⟨hsource, ?_⟩
    rw [stop, hopen]
    rfl

/-- A template with a brace, an opening and an escaped quote within quotes. -/
def quotedBraces : List Char := "Hi $\x7bconcat('\x7d\\'$\x7b', $\x7b/a\x7d)\x7d!\x7d".toList

/-- The first closing brace is quoted and the second one belongs to the reference, so the third one
ends the placeholder. -/
theorem closed_iff_balanced_quotedBraces :
    Balanced "concat('\x7d\\'$\x7b', $\x7b/a\x7d)".toList ∧
      startingAt quotedBraces 5
        = ⟨"concat('\x7d\\'$\x7b', $\x7b/a\x7d)".toList, "!\x7d".toList, true⟩ ∧
      stop quotedBraces 5 = 28 := by
  have hread : startingAt quotedBraces 5
      = ⟨"concat('\x7d\\'$\x7b', $\x7b/a\x7d)".toList, "!\x7d".toList, true⟩ := by cbv
  obtain ⟨hclosed, hfound, -⟩ := closed_iff_balanced quotedBraces 5
  obtain ⟨b, rest, h⟩ := hclosed.1 (by rw [hread])
  obtain ⟨-, heq, hstop, -⟩ := hfound b rest h
  obtain rfl : b = "concat('\x7d\\'$\x7b', $\x7b/a\x7d)".toList :=
    congrArg Body.text (heq.symm.trans hread)
  refine ⟨h.balanced, hread, hstop.trans ?_⟩
  cbv

end Body

end Template

end LiveValue
