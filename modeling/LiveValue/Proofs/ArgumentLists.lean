import LiveValue.Proofs.Integers
import LiveValue.Proofs.Quoting
import LiveValue.Template.Arguments

/-!
# Writing argument lists

Where the arguments of a call may be split depends on the quotes and the parentheses in front. A
text `Passes` if splitting goes over it and stands behind it as it stood before it: quoted texts
do, and whatever stands in parentheses, with its commas. A list of such texts, with a comma and a
blank between any two, is split into just these texts.

* `Arguments.passes_quoted`, `Arguments.passes_parentheses`: texts that pass;
* `Arguments.split_intercalate`: splitting a list that was put together.
-/

namespace LiveValue

open Text (Pieces Quote QuoteState)

namespace Text.Pieces

theorem push_push (first second : List Char) (p : Pieces) :
    (p.push second).push first = p.push (first ++ second) := by
  simp [push]

theorem toList_push_single (s : List Char) : ((single []).push s).toList = [s] := by
  simp [push, single, toList]

theorem toList_push_cut (s : List Char) (p : Pieces) : (p.cut.push s).toList = s :: p.toList := by
  simp [push, cut, toList]

end Text.Pieces

namespace Template.Arguments

/-! ## What one step of splitting does -/

section Steps

variable {depth : Nat} {c : Char} {rest : List Char}

theorem pieces_escape (q : Quote) (depth : Nat) (c : Char) (rest : List Char) :
    pieces (.inside q) depth ('\\' :: c :: rest)
      = (pieces (.inside q) depth rest).push ['\\', c] := rfl

theorem pieces_inside {q : Quote} (h : c ≠ '\\') :
    pieces (.inside q) depth (c :: rest)
      = (pieces ((QuoteState.inside q).next c) depth rest).push [c] := by
  rw [pieces.eq_def]
  exact if_neg h

theorem pieces_comma (rest : List Char) :
    pieces .scanning 0 (',' :: rest) = (pieces .scanning 0 rest).cut := by
  rw [pieces.eq_def]
  rfl

theorem pieces_scanning (h : ¬(c = ',' ∧ depth = 0)) :
    pieces .scanning depth (c :: rest)
      = (pieces (QuoteState.scanning.next c) (nesting depth c) rest).push [c] := by
  rw [pieces.eq_def]
  exact if_neg h

end Steps

/-! ## Texts that pass -/

/-- From a depth on, splitting goes over the text without a cut and stands behind it at the same
depth outside of quotes. -/
def Passes (least : Nat) (s : List Char) : Prop :=
  ∀ depth rest, least ≤ depth →
    pieces .scanning depth (s ++ rest) = (pieces .scanning depth rest).push s

/-- The characters that splitting looks at. -/
def marks : List Char := ['\'', '"', '(', ')', ',']

def isPlain (c : Char) : Bool := !marks.contains c

variable {least : Nat} {s t : List Char}

theorem Passes.mono {least' : Nat} (h : Passes least s) (hle : least ≤ least') : Passes least' s :=
  fun depth rest hdepth => h depth rest (Nat.le_trans hle hdepth)

theorem passes_nil : Passes least [] := fun _ _ _ => rfl

theorem Passes.append (hs : Passes least s) (ht : Passes least t) : Passes least (s ++ t) := by
  intro depth rest hdepth
  rw [List.append_assoc, hs depth _ hdepth, ht depth rest hdepth, Pieces.push_push]

theorem passes_comma (h : 0 < least) : Passes least [','] := by
  intro depth rest hdepth
  have hdeep : ¬(',' = ',' ∧ depth = 0) := fun ⟨_, hzero⟩ => by omega
  rw [List.singleton_append, pieces_scanning hdeep]
  rfl

theorem passes_plain {c : Char} (h : isPlain c = true) : Passes least [c] := by
  obtain ⟨hsingle, hdouble, hopen, hclose, hcomma⟩ :
      c ≠ '\'' ∧ c ≠ '"' ∧ c ≠ '(' ∧ c ≠ ')' ∧ c ≠ ',' := by simpa [isPlain, marks] using h
  intro depth rest hdepth
  have hnext : QuoteState.scanning.next c = .scanning := by
    simp only [QuoteState.next, Quote.ofChar?, if_neg hsingle, if_neg hdouble]
  have hnesting : nesting depth c = depth := by
    rw [nesting, if_neg hopen, if_neg hclose]
  rw [List.singleton_append, pieces_scanning fun ⟨hc, _⟩ => hcomma hc, hnext, hnesting]

theorem passes_of_plain (h : s.all isPlain = true) : Passes least s := by
  induction s with
  | nil => exact passes_nil
  | cons c rest ih =>
    rw [List.all_cons, Bool.and_eq_true] at h
    exact (passes_plain h.1).append (ih h.2)

/-- What passes in parentheses may have commas. -/
theorem passes_parentheses (h : Passes 1 s) : Passes 0 ('(' :: (s ++ [')'])) := by
  intro depth rest _
  -- between the parentheses the depth is not zero, so no comma cuts
  have hclose : pieces .scanning (depth + 1) (')' :: rest)
      = (pieces .scanning depth rest).push [')'] := by
    rw [pieces_scanning fun ⟨hc, _⟩ => absurd hc (by decide)]
    rfl
  have hopen : pieces .scanning depth ('(' :: (s ++ (')' :: rest)))
      = (pieces .scanning (depth + 1) (s ++ (')' :: rest))).push ['('] := by
    rw [pieces_scanning fun ⟨hc, _⟩ => absurd hc (by decide)]
    rfl
  have hinside := h (depth + 1) (')' :: rest) (by omega)
  rw [List.cons_append, List.append_assoc, List.singleton_append, hopen, hinside, hclose,
    Pieces.push_push, Pieces.push_push]
  rfl

/-- Within quotes, an escaped text leads up to the closing quote and no further. -/
theorem pieces_escape_append (q : Quote) (depth : Nat) (s rest : List Char) :
    pieces (.inside q) depth (Text.escape q s ++ rest)
      = (pieces (.inside q) depth rest).push (Text.escape q s) := by
  induction s with
  | nil => rfl
  | cons c s ih =>
    by_cases hc : c = '\\' ∨ c = q.char
    · rw [Text.escape, if_pos hc, List.cons_append, List.cons_append, pieces_escape, ih,
        Pieces.push_push]
      rfl
    · obtain ⟨hslash, hquote⟩ := not_or.1 hc
      have hstay : (QuoteState.inside q).next c = .inside q := if_neg hquote
      rw [Text.escape, if_neg hc, List.cons_append, pieces_inside hslash, hstay, ih,
        Pieces.push_push]
      rfl

theorem passes_quoted (q : Quote) (s : List Char) : Passes least (Text.quoted q s) := by
  intro depth rest _
  have hnext : QuoteState.scanning.next q.char = .inside q := by
    simp only [QuoteState.next, Quote.ofChar?_char]
  have hsplit : ¬(q.char = ',' ∧ depth = 0) := fun ⟨hc, _⟩ => by cases q <;> cases hc
  have hnesting : nesting depth q.char = depth := by cases q <;> rfl
  have hend : (QuoteState.inside q).next q.char = .scanning := if_pos rfl
  rw [Text.quoted, List.cons_append, List.append_assoc, pieces_scanning hsplit, hnext, hnesting,
    pieces_escape_append, List.singleton_append, pieces_inside q.char_ne_backslash, hend,
    Pieces.push_push, Pieces.push_push]
  rfl

/-! ## Lists -/

/-- A text that stands for itself in an argument list. -/
structure IsArgument (s : List Char) : Prop where
  passes : Passes 0 s
  nonempty : s ≠ []
  trimmed : Text.trim s = s

def listText (texts : List (List Char)) : List Char := [',', ' '].intercalate texts

theorem passes_listText {texts : List (List Char)} (h : ∀ s ∈ texts, IsArgument s) :
    Passes 1 (listText texts) := by
  have hblank : Passes 1 [' '] := passes_plain (by decide)
  induction texts with
  | nil => exact passes_nil
  | cons text texts ih =>
    rw [List.forall_mem_cons] at h
    have htext := h.1.passes.mono (Nat.zero_le 1)
    cases texts with
    | nil =>
      rw [listText, List.intercalate_singleton]
      exact htext
    | cons next texts =>
      rw [listText, List.intercalate_cons_cons]
      exact (htext.append ((passes_comma Nat.one_pos).append hblank)).append (ih h.2)

theorem map_trim_push_blank (p : Pieces) :
    (p.push [' ']).toList.map Text.trim = p.toList.map Text.trim := by
  have htrim : Text.trim (' ' :: p.first) = Text.trim p.first := rfl
  simp [Pieces.push, Pieces.toList, htrim]

/-- The blank behind a comma is the only one that trimming finds. -/
theorem trim_pieces_listText {text : List Char} {texts : List (List Char)}
    (h : ∀ s ∈ text :: texts, IsArgument s) :
    (pieces .scanning 0 (listText (text :: texts))).toList.map Text.trim = text :: texts := by
  induction texts generalizing text with
  | nil =>
    obtain ⟨hpasses, -, htrimmed⟩ := h text List.mem_cons_self
    have hpieces := hpasses 0 [] (Nat.le_refl 0)
    rw [List.append_nil] at hpieces
    rw [listText, List.intercalate_singleton, hpieces, pieces, Pieces.toList_push_single,
      List.map_singleton, htrimmed]
  | cons next texts ih =>
    rw [List.forall_mem_cons] at h
    obtain ⟨⟨hpasses, -, htrimmed⟩, hothers⟩ := h
    have hblank : Passes 0 [' '] := passes_plain (by decide)
    have hrest : pieces .scanning 0 (' ' :: listText (next :: texts))
        = (pieces .scanning 0 (listText (next :: texts))).push [' '] :=
      hblank 0 _ (Nat.le_refl 0)
    have hlist : listText (text :: next :: texts)
        = text ++ (',' :: ' ' :: listText (next :: texts)) := by
      rw [listText, List.intercalate_cons_cons, List.append_assoc]
      rfl
    rw [hlist, hpasses 0 _ (Nat.le_refl 0), pieces_comma, hrest, Pieces.toList_push_cut,
      List.map_cons, htrimmed, map_trim_push_blank, ih hothers]

/-- A list that is put together from arguments is split into just these. -/
theorem split_listText {texts : List (List Char)} (h : ∀ s ∈ texts, IsArgument s) :
    split (listText texts) = texts := by
  cases texts with
  | nil => rfl
  | cons text texts =>
    have hlast : (text :: texts).getLast? ≠ some [] := fun hnil =>
      (h [] (List.mem_of_getLast? hnil)).nonempty rfl
    rw [split, trim_pieces_listText h, dropEmptyLast, if_neg hlast]

end Template.Arguments

end LiveValue
