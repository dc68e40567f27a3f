import LiveValue.Proofs.Delimiters

/-!
# Escapes undone in one pass

Unquoting takes backslashes away in two passes over what stands between the quotes: first each one
in front of a quote, then one of each pair. The first pass does not ask whether a backslash is
escaped itself, so of `\\'` it takes the second one, which belongs to the one in front of it. But
that one has then lost its partner and stays in the second pass: one is left of the two, as if they
had been read as a pair. So the two passes come to the same as one that reads the escapes from left
to right, as a scanner of the run does.

* `unescape_unescape`: two passes and one;
* `runContent_escape`: an escaped text is the content of a run;
* `unquoted_in_one_pass`: the content of a quoted text.
-/

namespace LiveValue.Text

/-- Undoes the escapes of a quote and of the backslash from left to right: of each backslash in
front of one of the two only that character is left, and all other characters stay. -/
def unescapeBoth (q : Quote) : List Char → List Char
  | '\\' :: c :: rest =>
      if c = '\\' ∨ c = q.char then c :: unescapeBoth q rest else '\\' :: unescapeBoth q (c :: rest)
  | c :: rest => c :: unescapeBoth q rest
  | [] => []

/-- What does not start with a backslash still starts with the same character. -/
theorem head?_unescape {c d : Char} (h : d ≠ '\\') (rest : List Char) :
    (unescape c (d :: rest)).head? = some d := by
  rw [unescape_other h]
  rfl

/-- Of two backslashes one is left, also where the first pass takes the second of them away. -/
theorem unescape_backslashes (q : Quote) (rest : List Char) :
    unescape '\\' (unescape q.char ('\\' :: '\\' :: rest))
      = '\\' :: unescape '\\' (unescape q.char rest) := by
  have hfirst : ('\\' :: rest).head? ≠ some q.char := fun h =>
    q.char_ne_backslash (Option.some.inj h).symm
  rw [unescape_backslash hfirst]
  by_cases hquote : rest.head? = some q.char
  · -- the first pass takes the second backslash, and the first one is alone in the second pass
    obtain ⟨more, rfl⟩ := List.head?_eq_some_iff.1 hquote
    have halone : (q.char :: unescape q.char more).head? ≠ some '\\' := fun h =>
      q.char_ne_backslash (Option.some.inj h)
    rw [unescape_pair, unescape_other q.char_ne_backslash, unescape_backslash halone]
  · rw [unescape_backslash hquote, unescape_pair]

/-- Undoing the escapes of the quote and then those of the backslash undoes them all at once. -/
theorem unescape_unescape (q : Quote) (s : List Char) :
    unescape '\\' (unescape q.char s) = unescapeBoth q s := by
  fun_induction unescapeBoth q s with
  | case1 c rest h ih =>
    rcases h with rfl | rfl
    · rw [unescape_backslashes, ih]
    · rw [unescape_pair, unescape_other q.char_ne_backslash, ih]
  | case2 c rest h ih =>
    obtain ⟨hslash, hquote⟩ := not_or.1 h
    have hfirst : (c :: rest).head? ≠ some q.char := fun h => hquote (Option.some.inj h)
    have hsecond : (unescape q.char (c :: rest)).head? ≠ some '\\' := by
      rw [head?_unescape hslash]
      exact fun h => hslash (Option.some.inj h)
    rw [unescape_backslash hfirst, unescape_backslash hsecond, ih]
  | case3 c rest h ih =>
    by_cases hslash : c = '\\'
    · -- a backslash at the very end
      subst hslash
      cases rest with
      | nil => rfl
      | cons d more => exact absurd rfl (h d more rfl)
    · rw [unescape_other hslash, unescape_other hslash, ih]
  | case4 => rfl

/-- In an escaped text no quote is met that would end a run. -/
theorem runContent_escape (q : Quote) (s : List Char) : RunContent q (escape q s) := by
  induction s with
  | nil => exact .nil
  | cons c rest ih =>
    by_cases h : c = '\\' ∨ c = q.char
    · rw [escape, if_pos h]
      exact .escape c ih
    · rw [escape, if_neg h]
      exact .char (fun hslash => h (.inl hslash)) (fun hquote => h (.inr hquote)) ih

/-- **Unquoting undoes quoting, and does it in one pass.** A scanner that starts behind the quote at
the start of a quoted text meets the one that closes at the end of the text and not before, and
unquoting gives back what was quoted. Of any text between two quotes, and so of any that a scanner
closes at its end, unquoting leaves what reading its escapes once from left to right leaves. -/
theorem unquoted_in_one_pass (q : Quote) :
    (∀ s, closing? Standing.within (.inside q) (escape q s ++ [q.char]) = some (escape q s, []) ∧
      unquote? (quoted q s) = some s) ∧
    ∀ body, unquote? (q.char :: (body ++ [q.char])) = some (unescapeBoth q body) := by
  refine ⟨fun s => ⟨?_, unquote?_quoted q s⟩, fun body => ?_⟩
  · exact Standing.closing?_of_runContent (runContent_escape q s) []
  · rw [unquote?, List.dropLast_concat, unescape_unescape]

/-- An escaped backslash in front of an escaped quote, a backslash that escapes nothing, and an
escaped one at the end. -/
example : unquote? "'\\\\\\'\\n\\\\'".toList = some "\\'\\n\\".toList := by cbv

end LiveValue.Text
