import LiveValue.Proofs.FewestDigits
import LiveValue.Value.Display

/-!
# Positional notation

A shown number has its digits in positional notation as long as its decimal point stands within
certain places, and otherwise one digit, a fraction and an exponent. The notation that scripts use
for numbers (ECMAScript, `Number::toString`) does the same with the same digits, but keeps to
positional notation for two more places behind the point.

* `Layout.magnitude_shown`: shown text is positional from the place -3 to the place 21;
* `Decimal.scriptText`: the notation of scripts, positional from the place -5 to the place 21;
* `shown_like_scripts`: shown text is in the notation of scripts, but for these two places;
* `exponent_below_ten_thousandth`: a number at one of these places.
-/

namespace LiveValue

namespace Decimal

/-- The digits with the point among them, and with zeros where they do not reach the point. -/
def positionalText (d : Decimal) : List Char :=
  let ds := digits d.coefficient
  if d.point ≤ 0 then '0' :: '.' :: List.replicate (-d.point).toNat '0' ++ ds
  else if d.point < ds.length then ds.take d.point.toNat ++ '.' :: ds.drop d.point.toNat
  else ds ++ List.replicate (d.point - ds.length).toNat '0'

/-- One digit, and the others as a fraction. -/
def mantissaText (d : Decimal) : List Char :=
  match digits d.coefficient with
  | first :: second :: rest => first :: '.' :: second :: rest
  | ds => ds

/-- The mantissa, and the exponent with its sign and at least so many digits. -/
def exponentText (width : Nat) (d : Decimal) : List Char :=
  let size := digits (d.point - 1).natAbs
  d.mantissaText ++ 'e' :: (if d.point - 1 < 0 then '-' else '+') ::
    List.replicate (width - size.length) '0' ++ size

/-- The text of a decimal in the notation of scripts: an integer of at most 21 places in full, a
number with a fraction in positional notation if fewer than six zeros stand between the point and
its digits, and every other one with an exponent. -/
def scriptText (d : Decimal) : List Char :=
  let ds := digits d.coefficient
  if ds.length ≤ d.point ∧ d.point ≤ 21 then
    ds ++ List.replicate (d.point - ds.length).toNat '0'
  else if 0 < d.point ∧ d.point ≤ 21 then ds.take d.point.toNat ++ '.' :: ds.drop d.point.toNat
  else if -6 < d.point ∧ d.point ≤ 0 then
    '0' :: '.' :: List.replicate (-d.point).toNat '0' ++ ds
  else
    let exponent := (if d.point - 1 < 0 then '-' else '+') :: digits (d.point - 1).natAbs
    match ds with
    | [digit] => digit :: 'e' :: exponent
    | _ => ds.take 1 ++ '.' :: ds.drop 1 ++ 'e' :: exponent

variable {d : Decimal}

/-- An exponent that may have one digit is not padded. -/
theorem exponentText_one (d : Decimal) :
    d.exponentText 1 = d.mantissaText ++
      'e' :: (if d.point - 1 < 0 then '-' else '+') :: digits (d.point - 1).natAbs := by
  have hlength := length_digits_pos (d.point - 1).natAbs
  have hpad : 1 - (digits (d.point - 1).natAbs).length = 0 := by omega
  simp [exponentText, hpad]

theorem scriptText_eq (d : Decimal) :
    d.scriptText = if -6 < d.point ∧ d.point ≤ 21 then d.positionalText else d.exponentText 1 := by
  have hlength := length_digits_pos d.coefficient
  rw [exponentText_one]
  unfold scriptText positionalText mantissaText
  dsimp only
  generalize digits d.coefficient = ds at hlength ⊢
  by_cases hinteger : ds.length ≤ d.point ∧ d.point ≤ 21
  · rw [if_pos hinteger, if_pos (by omega), if_neg (by omega), if_neg (by omega)]
  · rw [if_neg hinteger]
    by_cases hinside : 0 < d.point ∧ d.point ≤ 21
    · rw [if_pos hinside, if_pos (by omega), if_neg (by omega), if_pos (by omega)]
    · rw [if_neg hinside]
      by_cases hbefore : -6 < d.point ∧ d.point ≤ 0
      · rw [if_pos hbefore, if_pos (by omega), if_pos (by omega)]
      · have hplaces : ¬(-6 < d.point ∧ d.point ≤ 21) := by omega
        rw [if_neg hbefore, if_neg hplaces]
        -- one digit stands alone, and of several the first stands before the point
        rcases ds with _ | ⟨first, _ | ⟨second, rest⟩⟩
        · exact absurd hlength (by decide)
        · rfl
        · rfl

theorem e_mem_exponentText (width : Nat) (d : Decimal) : 'e' ∈ d.exponentText width := by
  simp [exponentText]

theorem isDigit_or_point_of_mem_positionalText {c : Char} (h : c ∈ d.positionalText) :
    c.isDigit = true ∨ c = '.' := by
  have hdigit {c : Char} (h : c ∈ digits d.coefficient) : c.isDigit = true :=
    isDigit_of_mem_digits h
  have hzero {n : Nat} {c : Char} (h : c ∈ List.replicate n '0') : c.isDigit = true :=
    AreDigits.isDigit_of_mem_zeros h
  unfold positionalText at h
  dsimp only at h
  split at h
  · rcases List.mem_append.1 h with hfront | hdigits
    · rcases List.mem_cons.1 hfront with rfl | hfront
      · exact .inl rfl
      · rcases List.mem_cons.1 hfront with rfl | hzeros
        · exact .inr rfl
        · exact .inl (hzero hzeros)
    · exact .inl (hdigit hdigits)
  · split at h
    · rcases List.mem_append.1 h with hfront | hback
      · exact .inl (hdigit (List.mem_of_mem_take hfront))
      · rcases List.mem_cons.1 hback with rfl | hback
        · exact .inr rfl
        · exact .inl (hdigit (List.mem_of_mem_drop hback))
    · rcases List.mem_append.1 h with hdigits | hzeros
      · exact .inl (hdigit hdigits)
      · exact .inl (hzero hzeros)

theorem exponentText_ne_positionalText (width : Nat) (d : Decimal) :
    d.exponentText width ≠ d.positionalText := by
  intro heq
  have he := e_mem_exponentText width d
  rw [heq] at he
  exact (isDigit_or_point_of_mem_positionalText he).elim (by decide) (by decide)

end Decimal

namespace Layout

/-- Shown text is positional as long as the point stands within these places. An integral number
with more than sixteen places has no digits behind the point, since seventeen digits suffice. -/
theorem magnitude_shown (width : Nat) {rank : Nat} (h : rank ≠ 0) :
    (shown width).magnitude rank =
      if -4 < (Binary64.shortest rank).point ∧ (Binary64.shortest rank).point ≤ 21 then
        (Binary64.shortest rank).positionalText
      else (Binary64.shortest rank).exponentText width := by
  have hdigits := Binary64.length_digits_shortest_le_seventeen h
  have hlength := Decimal.length_digits_pos (Binary64.shortest rank).coefficient
  have hpoint : (Binary64.shortest rank).point
      = (Decimal.digits (Binary64.shortest rank).coefficient).length
        + (Binary64.shortest rank).exponent := rfl
  have hpositional : (shown width).positional
      (Decimal.digits (Binary64.shortest rank).coefficient) (Binary64.shortest rank).point
      = (Binary64.shortest rank).positionalText := by
    unfold positional Decimal.positionalText
    simp [shown, display]
  have hexponential : (shown width).exponential
      (Decimal.digits (Binary64.shortest rank).coefficient) (Binary64.shortest rank).point
      = (Binary64.shortest rank).exponentText width := rfl
  rw [magnitude, if_neg h]
  dsimp only
  rw [hpositional, hexponential]
  change (if 0 ≤ (Binary64.shortest rank).exponent ∧ (Binary64.shortest rank).point ≤ 21 then _
    else if -4 < (Binary64.shortest rank).point ∧ (Binary64.shortest rank).point ≤ 16 then _
    else _) = _
  by_cases hplain : 0 ≤ (Binary64.shortest rank).exponent ∧ (Binary64.shortest rank).point ≤ 21
  · rw [if_pos hplain, if_pos (by omega)]
  · rw [if_neg hplain]
    by_cases hplace : -4 < (Binary64.shortest rank).point ∧ (Binary64.shortest rank).point ≤ 16
    · rw [if_pos hplace, if_pos (by omega)]
    · rw [if_neg hplace, if_neg (by omega)]

theorem write_display_zero (negative : Bool) (h : 0 < Binary64.rankBound) :
    display.write (.finite negative ⟨0, h⟩) = ['0'] := by
  cases negative <;> rfl

/-- A number other than zero is shown with its sign in front. -/
theorem write_display (negative : Bool) {rank : Fin Binary64.rankBound} (h : (rank : Nat) ≠ 0) :
    display.write (.finite negative rank)
      = (if negative then ['-'] else []) ++ display.magnitude rank := by
  simp [write, display, h]

end Layout

/-- **Shown numbers and the notation of scripts.** Zero is shown as its digit, whatever its sign.
Any other number is shown with the fewest digits that are read as it, in the notation of scripts:
but where its point stands at the place -5 or -4, that notation is positional and the shown text has
an exponent. -/
theorem shown_like_scripts (negative : Bool) (rank : Fin Binary64.rankBound) :
    ((rank : Nat) = 0 → (Value.float (.finite negative rank)).text = .ok ['0']) ∧
    ((rank : Nat) ≠ 0 →
      let d := Binary64.shortest rank
      Binary64.IsShortest negative rank d ∧
      (10 ^ (d.point - 1) ≤ d.rational ∧ d.rational < 10 ^ d.point) ∧
      (Value.float (.finite negative rank)).text = .ok ((if negative then ['-'] else []) ++
        if -6 < d.point ∧ d.point ≤ -4 then d.exponentText 1 else d.scriptText) ∧
      (-6 < d.point ∧ d.point ≤ -4 → d.exponentText 1 ≠ d.scriptText)) := by
  refine ⟨fun h => ?_, fun h => ?_⟩
  · obtain ⟨rank, hrank⟩ := rank
    obtain rfl : rank = 0 := h
    exact congrArg Except.ok (Layout.write_display_zero negative hrank)
  · intro d
    have hsize : 10 ^ (d.point - 1) ≤ d.rational ∧ d.rational < 10 ^ d.point :=
      ⟨Decimal.pow_point_le_rational (Binary64.coefficient_shortest_ne_zero h),
        Decimal.rational_lt_pow_point d⟩
    refine ⟨Binary64.isShortest_shortest negative h, hsize, ?_, ?_⟩
    · have hmagnitude : Layout.display.magnitude rank
          = if -4 < d.point ∧ d.point ≤ 21 then d.positionalText else d.exponentText 1 :=
        Layout.magnitude_shown 1 h
      change Except.ok (Layout.display.write _) = _
      rw [Layout.write_display negative h, hmagnitude, Decimal.scriptText_eq]
      congr 2
      by_cases hplace : -6 < d.point ∧ d.point ≤ -4
      · rw [if_pos hplace, if_neg (by omega)]
      · rw [if_neg hplace]
        by_cases hpositional : -4 < d.point ∧ d.point ≤ 21
        · rw [if_pos hpositional, if_pos (by omega)]
        · rw [if_neg hpositional, if_neg (by omega)]
    · intro hplace
      rw [Decimal.scriptText_eq, if_pos (by omega)]
      exact Decimal.exponentText_ne_positionalText 1 d

/-- The number -2^-24 is shown with all its digits and an exponent, in the notation of scripts. -/
theorem shown_like_scripts_tiny :
    ((4499096027743125504 : Nat) ≠ 0 ∧
      (Value.float (.finite true ⟨4499096027743125504, by decide⟩)).text
        = .ok "-5.960464477539063e-8".toList) ∧
    (Value.float (.finite true ⟨4499096027743125504, by decide⟩)).text
      = .ok ('-' :: (Binary64.shortest 4499096027743125504).scriptText) := by
  have hplace : ¬(-6 < (Binary64.shortest 4499096027743125504).point ∧
      (Binary64.shortest 4499096027743125504).point ≤ -4) := by decide +kernel
  obtain ⟨-, -, hwrite, -⟩ :=
    (shown_like_scripts true ⟨4499096027743125504, by decide⟩).2 (by decide)
  rw [if_neg hplace] at hwrite
  refine ⟨⟨by decide, by decide +kernel⟩, ?_⟩
  rwa [if_pos rfl, List.singleton_append] at hwrite

/-- The number nearest to 10^-5 has its point at the place -4, where the notation of scripts is
positional, but it is shown with an exponent. -/
theorem exponent_below_ten_thousandth :
    Binary64.shortest 4532020583610935537 = ⟨1, -5⟩ ∧
    (⟨1, -5⟩ : Decimal).point = -4 ∧
    (⟨1, -5⟩ : Decimal).scriptText = "0.00001".toList ∧
    (Value.float (.finite false ⟨4532020583610935537, by decide⟩)).text = .ok "1e-5".toList := by
  decide +kernel

end LiveValue
