import LiveValue.Proofs.ArgumentLists

/-!
# Pieces of argument lists

Seen one character at a time, the splitting of an argument list always stands at a place: outside of
quotes, within a quoted run or behind a backslash there, and at some depth of parentheses. Where a
piece starts it stands on the ground, outside of quotes at depth zero, and a comma separates two
arguments if it is met on the ground. So what is between two such commas can be scanned on its own,
and it does not matter which blanks are around it.

* `Arguments.pieces_eq_cutAt`: splitting, one character at a time;
* `Arguments.cutAt_intercalate`, `Arguments.divides_pieces`: a list that is put together is cut into
  what it was put together from, and every text is put together in this way;
* `Arguments.divides_map_trim`: blanks around the pieces change nothing;
* `Arguments.split_inverts_joining`: splitting and joining.
-/

namespace LiveValue

open Text (Pieces Quote QuoteState)

/-! ## Blanks around a text -/

/-- What trimming takes away. -/
theorem Text.exists_trail (s : List Char) :
    ∃ trail, s = s.takeWhile isBlank ++ trim s ++ trail ∧ ∀ c ∈ trail, isBlank c = true := by
  refine ⟨((s.dropWhile isBlank).reverse.takeWhile isBlank).reverse, ?_, ?_⟩
  · rw [List.append_assoc, trim, stripBoth, ← List.reverse_append,
      List.takeWhile_append_dropWhile, List.reverse_reverse, List.takeWhile_append_dropWhile]
  · intro c hc
    exact List.mem_takeWhile_imp (List.mem_reverse.1 hc)

/-- What is left when blanks are taken away neither starts nor ends with one. -/
theorem Text.trim_trim (s : List Char) : trim (trim s) = trim s := by
  have hstop (t : List Char) {c : Char} (h : (t.dropWhile isBlank).head? = some c) :
      isBlank c = false := by
    have hnot := List.head?_dropWhile_not isBlank t
    rwa [h] at hnot
  refine trim_eq_self (fun c hc => ?_) fun c hc => ?_
  · have hfront : trim s <+: s.dropWhile isBlank := by
      have hreverse := (List.dropWhile_suffix (l := (s.dropWhile isBlank).reverse) isBlank).reverse
      rwa [List.reverse_reverse] at hreverse
    obtain ⟨rest, hrest⟩ := hfront
    refine hstop s ?_
    rw [← hrest, List.head?_append, hc]
    rfl
  · rw [trim, stripBoth, List.getLast?_reverse] at hc
    exact hstop _ hc

/-! ## Standing within a text -/

/-- Where a scanner stands between two characters: in open text, within a quoted run, or there
behind a backslash, which takes the next character along. -/
inductive Text.Standing where
  | outside
  | inside (quote : Quote)
  | escaping (quote : Quote)
deriving DecidableEq

namespace Text.Standing

/-- The standing of a scanner that is not behind a backslash. -/
def ofState : QuoteState → Standing
  | .scanning => .outside
  | .inside quote => .inside quote

def next : Standing → Char → Standing
  | .outside, c => ofState (QuoteState.scanning.next c)
  | .inside quote, c =>
      if c = '\\' then .escaping quote else ofState ((QuoteState.inside quote).next c)
  | .escaping quote, _ => .inside quote

theorem next_inside {quote : Quote} {c : Char} (h : c ≠ '\\') :
    (inside quote).next c = ofState ((QuoteState.inside quote).next c) :=
  if_neg h

/-- A character that starts and ends no quoted run and escapes nothing. -/
def IsCalm (c : Char) : Prop := c ≠ '\'' ∧ c ≠ '"' ∧ c ≠ '\\'

instance : DecidablePred IsCalm := fun _ => inferInstanceAs (Decidable (_ ∧ _))

theorem isCalm_of_isBlank {c : Char} (h : isBlank c = true) : IsCalm c := by
  refine ⟨?_, ?_, ?_⟩ <;> rintro rfl <;> exact absurd h (by decide)

/-- Behind a calm character a scanner is outside of quotes only if it was so in front of it. -/
theorem next_eq_outside_iff {c : Char} (h : IsCalm c) (standing : Standing) :
    standing.next c = .outside ↔ standing = .outside := by
  obtain ⟨hsingle, hdouble, hslash⟩ := h
  have hquote : Quote.ofChar? c = none := by
    rw [Quote.ofChar?, if_neg hsingle, if_neg hdouble]
  cases standing with
  | outside =>
    have hstay : QuoteState.scanning.next c = .scanning := by simp only [QuoteState.next, hquote]
    simp [next, hstay, ofState]
  | inside quote =>
    have hother : c ≠ quote.char := by
      rintro rfl
      rw [Quote.ofChar?_char] at hquote
      cases hquote
    have hstay : (QuoteState.inside quote).next c = .inside quote := if_neg hother
    simp [next_inside hslash, hstay, ofState]
  | escaping quote => simp [next]

end Text.Standing

/-- Pieces put together with the mark between any two. -/
theorem Text.Pieces.intercalate_toList (mark : List Char) (p : Pieces) :
    mark.intercalate p.toList = p.joined mark := by
  obtain ⟨first, more⟩ := p
  induction more generalizing first with
  | nil => simp [toList, joined]
  | cons next more ih =>
    have hmore : mark.intercalate (next :: more) = next ++ more.flatMap (mark ++ ·) := ih next
    rw [toList, List.intercalate_cons_cons, hmore, joined, List.flatMap_cons]
    simp only [List.append_assoc]

namespace Template.Arguments

open Text (Standing)

/-! ## Places -/

/-- Where the splitting of an argument list stands between two characters. -/
structure Place where
  standing : Standing
  depth : Nat
deriving DecidableEq

namespace Place

/-- Outside of quotes and of parentheses. -/
def ground : Place := ⟨.outside, 0⟩

/-- The place behind one more character. Parentheses only count outside of quotes. -/
def next (p : Place) (c : Char) : Place :=
  ⟨p.standing.next c, if p.standing = .outside then nesting p.depth c else p.depth⟩

/-- The place behind a text; none if a comma of the text is met on the ground. -/
def over? : Place → List Char → Option Place
  | p, [] => some p
  | p, c :: rest => if c = ',' ∧ p = ground then none else (p.next c).over? rest

variable {p : Place} {c : Char} {s : List Char}

/-- Within quotes there is no ground. -/
theorem not_cuts (h : p.standing ≠ .outside) (c : Char) : ¬(c = ',' ∧ p = ground) := by
  rintro ⟨-, rfl⟩
  exact h rfl

theorem next_of_ne_outside (h : p.standing ≠ .outside) (c : Char) :
    p.next c = ⟨p.standing.next c, p.depth⟩ := by
  rw [next, if_neg h]

theorem over?_cons (h : ¬(c = ',' ∧ p = ground)) (s : List Char) :
    p.over? (c :: s) = (p.next c).over? s :=
  if_neg h

theorem over?_append (p : Place) (s t : List Char) :
    p.over? (s ++ t) = (p.over? s).bind fun p' => p'.over? t := by
  induction s generalizing p with
  | nil => rfl
  | cons c s ih =>
    by_cases hcut : c = ',' ∧ p = ground
    · simp [over?, hcut]
    · rw [List.cons_append, over?_cons hcut, over?_cons hcut, ih]

end Place

/-- The pieces of a text, cut at every comma that is met on the ground. -/
def cutAt : Place → List Char → Pieces
  | _, [] => .single []
  | p, c :: rest =>
      if c = ',' ∧ p = .ground then (cutAt .ground rest).cut else (cutAt (p.next c) rest).push [c]

theorem cutAt_cons {p : Place} {c : Char} (h : ¬(c = ',' ∧ p = .ground)) (rest : List Char) :
    cutAt p (c :: rest) = (cutAt (p.next c) rest).push [c] :=
  if_neg h

theorem cutAt_comma (rest : List Char) :
    cutAt .ground (',' :: rest) = (cutAt .ground rest).cut :=
  if_pos ⟨rfl, rfl⟩

/-- Splitting takes a backslash and the character behind it at once; one character at a time, the
pieces are the same. -/
theorem pieces_eq_cutAt (state : QuoteState) (depth : Nat) (s : List Char) :
    pieces state depth s = cutAt ⟨.ofState state, depth⟩ s := by
  fun_induction pieces state depth s with
  | case1 => rfl
  | case2 q depth => rfl
  | case3 q depth d rest ih =>
    have hinside : Standing.inside q ≠ .outside := by rintro ⟨⟩
    have hescaping : Standing.escaping q ≠ .outside := by rintro ⟨⟩
    rw [ih, Standing.ofState, cutAt_cons (Place.not_cuts hinside _),
      Place.next_of_ne_outside hinside, Standing.next, if_pos rfl,
      cutAt_cons (Place.not_cuts hescaping _), Place.next_of_ne_outside hescaping,
      Pieces.push_push]
    rfl
  | case4 q depth c rest hc ih =>
    have hinside : Standing.inside q ≠ .outside := by rintro ⟨⟩
    rw [ih]
    conv_rhs => rw [Standing.ofState, cutAt_cons (Place.not_cuts hinside _),
      Place.next_of_ne_outside hinside, Standing.next, if_neg hc]
  | case5 depth c rest h ih =>
    obtain ⟨rfl, rfl⟩ := h
    rw [ih]
    exact (cutAt_comma rest).symm
  | case6 depth c rest h ih =>
    have hcut : ¬(c = ',' ∧ (⟨.outside, depth⟩ : Place) = .ground) := fun hcut =>
      h ⟨hcut.1, congrArg Place.depth hcut.2⟩
    rw [ih]
    exact (cutAt_cons hcut rest).symm

/-! ## Lists that are put together -/

theorem cutAt_append {p p' : Place} {s : List Char} (h : p.over? s = some p') (rest : List Char) :
    cutAt p (s ++ rest) = (cutAt p' rest).push s := by
  induction s generalizing p with
  | nil =>
    cases h
    rfl
  | cons c s ih =>
    by_cases hcut : c = ',' ∧ p = .ground
    · rw [Place.over?, if_pos hcut] at h
      cases h
    · rw [Place.over?_cons hcut] at h
      rw [List.cons_append, cutAt_cons hcut, ih h, Pieces.push_push]
      rfl

/-- Pieces as splitting makes them: scanned on its own from the ground, no piece meets a separating
comma, and each that is followed by another one ends on the ground. -/
structure Divides (pieces : List (List Char)) : Prop where
  uncut : ∀ piece ∈ pieces, (Place.ground.over? piece).isSome = true
  grounded : ∀ piece ∈ pieces.dropLast, Place.ground.over? piece = some .ground

namespace Divides

variable {piece next : List Char} {more : List (List Char)}

theorem single (h : (Place.ground.over? piece).isSome = true) : Divides [piece] where
  uncut := List.forall_mem_singleton.2 h
  grounded := List.forall_mem_nil _

theorem cons (h : Place.ground.over? piece = some .ground) (hmore : Divides (next :: more)) :
    Divides (piece :: next :: more) where
  uncut := List.forall_mem_cons.2 ⟨by rw [h]; rfl, hmore.uncut⟩
  grounded := List.forall_mem_cons.2 ⟨h, hmore.grounded⟩

theorem of_cons (h : Divides (piece :: next :: more)) :
    Place.ground.over? piece = some .ground ∧ Divides (next :: more) := by
  obtain ⟨hpiece, hgrounded⟩ := List.forall_mem_cons.1 h.grounded
  exact ⟨hpiece, (List.forall_mem_cons.1 h.uncut).2, hgrounded⟩

/-- The last piece can be left out. -/
theorem dropLast {pieces : List (List Char)} (h : Divides pieces) : Divides pieces.dropLast where
  uncut piece hpiece := h.uncut piece (List.dropLast_subset _ hpiece)
  grounded piece hpiece := h.grounded piece (List.dropLast_subset _ hpiece)

end Divides

/-- A list that is put together from pieces is cut into them. -/
theorem cutAt_intercalate {piece : List Char} {more : List (List Char)}
    (h : Divides (piece :: more)) :
    cutAt .ground ([','].intercalate (piece :: more)) = ⟨piece, more⟩ := by
  induction more generalizing piece with
  | nil =>
    obtain ⟨p, hp⟩ := Option.isSome_iff_exists.1 (h.uncut piece List.mem_cons_self)
    have hcut := cutAt_append hp []
    rw [List.append_nil] at hcut
    rw [List.intercalate_singleton, hcut]
    simp [cutAt, Pieces.single, Pieces.push]
  | cons next more ih =>
    obtain ⟨hpiece, hmore⟩ := h.of_cons
    rw [List.intercalate_cons_cons, List.append_assoc, cutAt_append hpiece, List.singleton_append,
      cutAt_comma, ih hmore]
    simp [Pieces.cut, Pieces.push, Pieces.toList]

/-- A text is cut into pieces that are put together as they should be. -/
theorem divides_cutAt (p : Place) (s : List Char) :
    (∃ first, cutAt p s = .single first ∧ (p.over? first).isSome = true) ∨
      ∃ first, ∃ others : Pieces, cutAt p s = others.cut.push first ∧
        p.over? first = some .ground ∧ Divides others.toList := by
  induction s generalizing p with
  | nil => exact .inl ⟨[], rfl, rfl⟩
  | cons c s ih =>
    by_cases hcut : c = ',' ∧ p = .ground
    · obtain ⟨rfl, rfl⟩ := hcut
      refine .inr ⟨[], cutAt .ground s, cutAt_comma s, rfl, ?_⟩
      rcases ih .ground with ⟨first, heq, hfirst⟩ | ⟨first, others, heq, hfirst, hothers⟩
      · rw [heq]
        exact .single hfirst
      · rw [heq, Pieces.toList_push_cut]
        exact .cons hfirst hothers
    · rw [cutAt_cons hcut]
      rcases ih (p.next c) with ⟨first, heq, hfirst⟩ | ⟨first, others, heq, hfirst, hothers⟩
      · refine .inl ⟨c :: first, ?_, ?_⟩
        · rw [heq]
          simp [Pieces.push, Pieces.single]
        · rwa [Place.over?_cons hcut]
      · refine .inr ⟨c :: first, others, ?_, ?_, hothers⟩
        · rw [heq, Pieces.push_push]
          rfl
        · rwa [Place.over?_cons hcut]

theorem pieces_eq_cutAt_ground (s : List Char) : pieces .scanning 0 s = cutAt .ground s :=
  pieces_eq_cutAt .scanning 0 s

theorem divides_pieces (s : List Char) : Divides (pieces .scanning 0 s).toList := by
  rw [pieces_eq_cutAt_ground]
  rcases divides_cutAt .ground s with ⟨first, heq, hfirst⟩ | ⟨first, others, heq, hfirst, hothers⟩
  · rw [heq]
    exact .single hfirst
  · rw [heq, Pieces.toList_push_cut]
    exact .cons hfirst hothers

theorem pieces_intercalate {texts : List (List Char)} (h : Divides texts) (hne : texts ≠ []) :
    (pieces .scanning 0 ([','].intercalate texts)).toList = texts := by
  obtain ⟨piece, more, rfl⟩ := List.exists_cons_of_ne_nil hne
  rw [pieces_eq_cutAt_ground, cutAt_intercalate h]
  rfl

/-! ## Blanks around pieces -/

namespace Place

/-- A blank leads to the ground from the ground alone. -/
theorem next_eq_ground_iff {c : Char} (h : Text.isBlank c = true) (p : Place) :
    p.next c = ground ↔ p = ground := by
  have hopen : c ≠ '(' := by rintro rfl; exact absurd h (by decide)
  have hclose : c ≠ ')' := by rintro rfl; exact absurd h (by decide)
  have hdepth : (if p.standing = .outside then nesting p.depth c else p.depth) = p.depth := by
    rw [nesting, if_neg hopen, if_neg hclose, ite_self]
  have hstanding := Standing.next_eq_outside_iff (Standing.isCalm_of_isBlank h) p.standing
  obtain ⟨standing, depth⟩ := p
  rw [next, hdepth, ground, Place.mk.injEq, Place.mk.injEq, hstanding]

/-- Blanks separate nothing, and lead to the ground from the ground alone. -/
theorem over?_of_blank {blanks : List Char} (h : ∀ c ∈ blanks, Text.isBlank c = true)
    (p : Place) : ∃ p', p.over? blanks = some p' ∧ (p' = ground ↔ p = ground) := by
  induction blanks generalizing p with
  | nil => exact ⟨p, rfl, Iff.rfl⟩
  | cons c blanks ih =>
    rw [List.forall_mem_cons] at h
    have hcomma : c ≠ ',' := by rintro rfl; exact absurd h.1 (by decide)
    obtain ⟨p', hover, hground⟩ := ih h.2 (p.next c)
    refine ⟨p', ?_, hground.trans (next_eq_ground_iff h.1 p)⟩
    rwa [over?_cons fun hcut => hcomma hcut.1]

/-- From the ground, a text with blanks around it meets no separating comma if the text alone meets
none, and then both end on the ground or none of them. -/
theorem over?_trim (s : List Char) :
    (ground.over? (Text.trim s) = none ∧ ground.over? s = none) ∨
      ∃ p p', ground.over? (Text.trim s) = some p ∧ ground.over? s = some p' ∧
        (p' = ground ↔ p = ground) := by
  obtain ⟨trail, hs, htrail⟩ := Text.exists_trail s
  obtain ⟨p, hlead, hground⟩ := over?_of_blank (fun c hc => List.mem_takeWhile_imp hc) ground
  obtain rfl := hground.2 rfl
  have hover : ground.over? s = (ground.over? (Text.trim s)).bind fun p => p.over? trail := by
    conv_lhs => rw [hs, over?_append, over?_append, hlead, Option.bind_some]
  rw [hover]
  cases ground.over? (Text.trim s) with
  | none => exact .inl ⟨rfl, rfl⟩
  | some p =>
    obtain ⟨p', hp', hiff⟩ := over?_of_blank htrail p
    exact .inr ⟨p, p', rfl, hp', hiff⟩

theorem isSome_over?_trim (s : List Char) :
    (ground.over? (Text.trim s)).isSome = (ground.over? s).isSome := by
  rcases over?_trim s with ⟨htrim, hs⟩ | ⟨p, p', htrim, hs, -⟩
  · rw [htrim, hs]
  · rw [htrim, hs]
    rfl

theorem over?_trim_eq_ground (s : List Char) :
    ground.over? (Text.trim s) = some ground ↔ ground.over? s = some ground := by
  rcases over?_trim s with ⟨htrim, hs⟩ | ⟨p, p', htrim, hs, hiff⟩
  · rw [htrim, hs]
  · rw [htrim, hs, Option.some_inj, Option.some_inj, hiff]

end Place

theorem divides_map_trim (texts : List (List Char)) :
    Divides (texts.map Text.trim) ↔ Divides texts := by
  have huncut : (∀ piece ∈ texts.map Text.trim, (Place.ground.over? piece).isSome = true) ↔
      ∀ piece ∈ texts, (Place.ground.over? piece).isSome = true := by
    simp only [List.forall_mem_map, Place.isSome_over?_trim]
  have hgrounded : (∀ piece ∈ (texts.map Text.trim).dropLast,
        Place.ground.over? piece = some .ground) ↔
      ∀ piece ∈ texts.dropLast, Place.ground.over? piece = some .ground := by
    simp only [← List.map_dropLast, List.forall_mem_map, Place.over?_trim_eq_ground]
  exact ⟨fun h => ⟨huncut.1 h.uncut, hgrounded.1 h.grounded⟩,
    fun h => ⟨huncut.2 h.uncut, hgrounded.2 h.grounded⟩⟩

/-! ## Splitting and joining -/

theorem dropEmptyLast_concat (front : List (List Char)) (last : List Char) :
    dropEmptyLast (front ++ [last]) = front ++ if last = [] then [] else [last] := by
  by_cases h : last = []
  · subst h
    rw [dropEmptyLast, List.getLast?_concat, if_pos rfl, List.dropLast_concat, if_pos rfl,
      List.append_nil]
  · have hlast : some last ≠ some [] := fun heq => h (Option.some.inj heq)
    rw [dropEmptyLast, List.getLast?_concat, if_neg hlast, if_neg h]

/-- What is split was a list of arguments that were put together, with any blanks around them. -/
theorem split_intercalate {written : List (List Char)} (h : Divides (written.map Text.trim))
    (hlast : (written.map Text.trim).getLast? ≠ some []) :
    split ([','].intercalate written) = written.map Text.trim := by
  by_cases hne : written = []
  · subst hne
    rfl
  · rw [split, pieces_intercalate ((divides_map_trim written).1 h) hne, dropEmptyLast,
      if_neg hlast]

/-- The arguments that splitting finds could be split into no less. -/
theorem divides_split (s : List Char) : Divides (split s) := by
  have hpieces := (divides_map_trim _).2 (divides_pieces s)
  rw [split, dropEmptyLast]
  split
  · exact hpieces.dropLast
  · exact hpieces

/-- Splitting takes nothing but blanks from a piece. -/
theorem exists_piece_of_mem_split {args arg : List Char} (h : arg ∈ split args) :
    ∃ piece ∈ (pieces .scanning 0 args).toList, arg = Text.trim piece := by
  have hmem : arg ∈ (pieces .scanning 0 args).toList.map Text.trim := by
    rw [split, dropEmptyLast] at h
    split at h
    · exact List.dropLast_subset _ h
    · exact h
  obtain ⟨piece, hpiece, rfl⟩ := List.mem_map.1 hmem
  exact ⟨piece, hpiece, rfl⟩

theorem trim_of_mem_split {s arg : List Char} (h : arg ∈ split s) : Text.trim arg = arg := by
  obtain ⟨piece, -, rfl⟩ := exists_piece_of_mem_split h
  exact Text.trim_trim piece

/-- Each text is put together from pieces in just one way, and splitting gives these pieces without
their blanks, and without the last one if it is blank. So arguments that could be pieces are found
again where they are put together with any blanks around them, and splitting what was found finds
it again, as long as the last argument is not empty. -/
theorem split_inverts_joining :
    (∀ raw, ∃! texts, texts ≠ [] ∧ [','].intercalate texts = raw ∧ Divides texts) ∧
    (∀ front last, Divides (front ++ [last]) →
      split ([','].intercalate (front ++ [last]))
        = front.map Text.trim ++ if Text.trim last = [] then [] else [Text.trim last]) ∧
    (∀ written, Divides (written.map Text.trim) → (written.map Text.trim).getLast? ≠ some [] →
      split ([','].intercalate written) = written.map Text.trim) ∧
    ∀ raw, (split raw).getLast? ≠ some [] → split ([','].intercalate (split raw)) = split raw := by
  refine ⟨fun raw => ?_, fun front last h => ?_, fun written => split_intercalate, ?_⟩
  · have hjoined := (Pieces.intercalate_toList [','] _).trans (joined_pieces .scanning 0 raw)
    refine ⟨(pieces .scanning 0 raw).toList,
      ⟨List.cons_ne_nil _ _, hjoined, divides_pieces raw⟩, ?_⟩
    rintro texts ⟨hne, rfl, h⟩
    exact (pieces_intercalate h hne).symm
  · have hne : front ++ [last] ≠ [] := List.append_ne_nil_of_right_ne_nil _ (List.cons_ne_nil _ _)
    rw [split, pieces_intercalate h hne, List.map_append, List.map_singleton,
      dropEmptyLast_concat]
  · intro raw hlast
    have htrim : (split raw).map Text.trim = split raw :=
      (List.map_congr_left fun arg harg => trim_of_mem_split harg).trans (List.map_id _)
    have hsplit := @split_intercalate (split raw)
    rw [htrim] at hsplit
    exact hsplit (divides_split raw) hlast

/-- An argument list with commas in quotes and in parentheses, a parenthesis too many, an empty
argument and a trailing comma. -/
def looseList : List Char := " 'a,\\',' , f(1, 2)) ,, 3 , ".toList

theorem split_inverts_joining_looseList :
    split looseList = ["'a,\\','".toList, "f(1, 2))".toList, [], ['3']] ∧
      split ([','].intercalate (split looseList)) = split looseList := by
  have hsplit : split looseList = ["'a,\\','".toList, "f(1, 2))".toList, [], ['3']] := by cbv
  refine ⟨hsplit, split_inverts_joining.2.2.2 looseList ?_⟩
  rw [hsplit]
  simp

end Template.Arguments

end LiveValue
