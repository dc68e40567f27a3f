import LiveValue.Text.Quoted

/-!
# Quoting

Any text can be written between quotes, once a backslash stands in front of each of its backslashes
and of each quote of that kind. Taking the quotes and the backslashes away again gives the text
back.

* `unquote?_quoted`: unquoting a quoted text.
-/

namespace LiveValue.Text

/-- A text with a backslash in front of every backslash and of every quote of a kind. -/
def escape (q : Quote) : List Char → List Char
  | [] => []
  | c :: rest => if c = '\\' ∨ c = q.char then '\\' :: c :: escape q rest else c :: escape q rest

/-- A text with every backslash written twice. -/
def doubled : List Char → List Char
  | [] => []
  | c :: rest => if c = '\\' then '\\' :: '\\' :: doubled rest else c :: doubled rest

def quoted (q : Quote) (s : List Char) : List Char := q.char :: (escape q s ++ [q.char])

namespace Quote

theorem char_ne_backslash (q : Quote) : q.char ≠ '\\' := by
  cases q <;> decide

@[simp]
theorem ofChar?_char (q : Quote) : ofChar? q.char = some q := by
  cases q <;> rfl

theorem eq_char_of_ofChar? {c : Char} {q : Quote} (h : ofChar? c = some q) : c = q.char := by
  unfold ofChar? at h
  split at h
  · next hsingle =>
    cases h
    exact hsingle
  · split at h
    · next hdouble =>
      cases h
      exact hdouble
    · cases h

end Quote

/-! ## Taking backslashes away -/

section Unescape

variable {c d : Char}

theorem unescape_pair (c : Char) (rest : List Char) :
    unescape c ('\\' :: c :: rest) = c :: unescape c rest := by
  rw [unescape, if_pos rfl]

theorem unescape_backslash {rest : List Char} (h : rest.head? ≠ some c) :
    unescape c ('\\' :: rest) = '\\' :: unescape c rest := by
  cases rest with
  | nil => rfl
  | cons d rest =>
    have hne : d ≠ c := fun hd => h (by rw [hd]; rfl)
    rw [unescape, if_neg hne]

theorem unescape_other (h : d ≠ '\\') (rest : List Char) :
    unescape c (d :: rest) = d :: unescape c rest := by
  rw [unescape]
  rintro e rest' rfl
  exact absurd rfl h

end Unescape

/-- An escaped text does not start with the quote. -/
theorem head?_escape_ne (q : Quote) (s : List Char) : (escape q s).head? ≠ some q.char := by
  intro h
  cases s with
  | nil => cases h
  | cons c rest =>
    unfold escape at h
    split at h
    · exact q.char_ne_backslash (Option.some.inj h).symm
    · next hplain => exact hplain (.inr (Option.some.inj h))

/-- Without the backslashes in front of quotes, those of the text itself are still doubled. -/
theorem unescape_escape (q : Quote) (s : List Char) :
    unescape q.char (escape q s) = doubled s := by
  induction s with
  | nil => rfl
  | cons c rest ih =>
    by_cases hslash : c = '\\'
    · subst hslash
      -- neither of the two backslashes stands in front of a quote
      have hsecond : ('\\' :: escape q rest).head? ≠ some q.char := fun h =>
        q.char_ne_backslash (Option.some.inj h).symm
      rw [escape, if_pos (.inl rfl), unescape_backslash hsecond,
        unescape_backslash (head?_escape_ne q rest), ih, doubled, if_pos rfl]
    · by_cases hquote : c = q.char
      · subst hquote
        rw [escape, if_pos (.inr rfl), unescape_pair, ih, doubled, if_neg hslash]
      · rw [escape, if_neg (not_or.2 ⟨hslash, hquote⟩), unescape_other hslash, ih, doubled,
          if_neg hslash]

theorem unescape_doubled (s : List Char) : unescape '\\' (doubled s) = s := by
  induction s with
  | nil => rfl
  | cons c rest ih =>
    by_cases hslash : c = '\\'
    · subst hslash
      rw [doubled, if_pos rfl, unescape_pair, ih]
    · rw [doubled, if_neg hslash, unescape_other hslash, ih]

/-- Every text can be quoted. -/
theorem unquote?_quoted (q : Quote) (s : List Char) : unquote? (quoted q s) = some s := by
  rw [quoted, unquote?, List.dropLast_concat, unescape_escape, unescape_doubled]

end LiveValue.Text
