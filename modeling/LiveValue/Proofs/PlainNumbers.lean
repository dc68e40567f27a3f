import LiveValue.Proofs.NumberTexts

/-!
# Numbers written in plain digits

Inside structured text the integral numbers below 10^21 are written with digits alone, and no others
are. Whether a number is one of them is decided by its shortest decimal, which is integral just when
the number is: between two neighbouring magnitudes, of which at least one has a fraction, there is
no integer that reads back as that one.

* `Binary64.IsPlain`: an integral magnitude below 10^21;
* `Binary64.integral_of_shortest`: a magnitude with an integral shortest decimal is integral;
* `Binary64.isPlain_iff`: how the shortest decimal tells the plain magnitudes;
* `Layout.isWhole_nested_iff`: the numbers whose texts are digits alone.
-/

namespace LiveValue

/-! ## The size of a decimal -/

namespace Decimal

variable {d : Decimal}

theorem rational_lt_pow_point (d : Decimal) : d.rational < 10 ^ d.point := by
  have hdigits : d.coefficient < 10 ^ (digits d.coefficient).length :=
    (length_digits_le_iff (length_digits_pos _)).1 le_rfl
  have hpow : (0 : ℚ) < 10 ^ d.exponent := by positivity
  rw [rational, point, zpow_add₀ (by norm_num), zpow_natCast]
  exact mul_lt_mul_of_pos_right (by exact_mod_cast hdigits) hpow

theorem pow_point_le_rational (h : d.coefficient ≠ 0) : 10 ^ (d.point - 1) ≤ d.rational := by
  have hpos := length_digits_pos d.coefficient
  have hsplit : d.point - 1 = ((digits d.coefficient).length - 1 : Nat) + d.exponent := by
    rw [point]
    omega
  have hpow : (0 : ℚ) ≤ 10 ^ d.exponent := by positivity
  rw [rational, hsplit, zpow_add₀ (by norm_num), zpow_natCast]
  exact mul_le_mul_of_nonneg_right (by exact_mod_cast pow_length_digits_le h) hpow

/-- The point says below which power of ten the number is. -/
theorem point_le_iff (h : d.coefficient ≠ 0) (k : ℤ) : d.point ≤ k ↔ d.rational < 10 ^ k := by
  constructor
  · intro hle
    exact (rational_lt_pow_point d).trans_le (zpow_le_zpow_right₀ (by norm_num) hle)
  · intro hlt
    by_contra hpoint
    have hpow : (10 : ℚ) ^ k ≤ 10 ^ (d.point - 1) :=
      zpow_le_zpow_right₀ (by norm_num) (by omega)
    exact absurd hlt (not_lt.2 (hpow.trans (pow_point_le_rational h)))

/-- A decimal without digits behind the point, as its digits with zeros behind them. -/
theorem rational_of_nonneg (h : 0 ≤ d.exponent) :
    d.rational
      = (ofDigits (digits d.coefficient ++ List.replicate d.exponent.toNat '0') : Nat) := by
  have hpower : (10 : ℚ) ^ d.exponent = 10 ^ d.exponent.toNat := by
    rw [← zpow_natCast, Int.toNat_of_nonneg h]
  rw [ofDigits_append_zeros, ofDigits_digits, rational, hpower]
  push_cast
  ring

end Decimal

namespace Binary64

/-! ## Where the shortest decimal lies -/

theorem strictMono_units : StrictMono units := strictMono_nat_of_lt_succ units_lt_succ

theorem scale_le_scale_succ (rank : Nat) : scale rank ≤ scale (rank + 1) :=
  Nat.sub_le_sub_right (Nat.div_le_div_right (Nat.le_succ rank)) 1

/-- The step down to the magnitude before is no larger than the step up. -/
theorem units_le_units_pred (rank : Nat) : units rank ≤ units (rank - 1) + 2 ^ scale rank := by
  cases rank with
  | zero => exact Nat.zero_le _
  | succ r =>
    have hstep : 2 ^ scale r ≤ 2 ^ scale (r + 1) :=
      Nat.pow_le_pow_right (by decide) (scale_le_scale_succ r)
    rw [units_succ, Nat.add_sub_cancel]
    omega

/-- The shortest decimal lies between the points halfway to the neighbouring magnitudes, counted in
units. -/
theorem shortest_between {rank : Nat} (h : rank ≠ 0) :
    ((units (rank - 1) + units rank : Nat) : ℚ) ≤ 2 * (unitsOfOne * (shortest rank).rational) ∧
      2 * (unitsOfOne * (shortest rank).rational) ≤ (units rank + units (rank + 1) : Nat) := by
  obtain ⟨hlow, hhigh⟩ := shortest_reads_back h
  have hgrid : (0 : ℚ) < Nat.pow 10 gridPower := by exact_mod_cast ten_pow_pos gridPower
  have hscaled : (2 * unitsOfOne * Nat.pow 10 gridPower * (shortest rank).rational : ℚ)
      = 2 * (unitsOfOne * (shortest rank).rational) * Nat.pow 10 gridPower := by ring
  rw [hscaled] at hlow hhigh
  rw [lowerEnd, Nat.cast_mul] at hlow
  rw [upperEnd, Nat.cast_mul] at hhigh
  exact ⟨le_of_mul_le_mul_right hlow hgrid, le_of_mul_le_mul_right hhigh hgrid⟩

/-- Rounding never passes over a magnitude on the way up … -/
theorem shortest_lt_of_units_lt {rank bound : Nat} (h : rank ≠ 0) (hlt : units rank < units bound) :
    unitsOfOne * (shortest rank).rational < units bound := by
  have hnext : units (rank + 1) ≤ units bound :=
    strictMono_units.monotone (strictMono_units.lt_iff_lt.1 hlt)
  have hsum : ((units rank + units (rank + 1) : Nat) : ℚ) < 2 * units bound := by
    exact_mod_cast (by omega : units rank + units (rank + 1) < 2 * units bound)
  have hhigh := (shortest_between h).2
  linarith

/-- … nor on the way down. -/
theorem lt_shortest_of_lt_units {rank bound : Nat} (h : rank ≠ 0) (hlt : units bound < units rank) :
    units bound < unitsOfOne * (shortest rank).rational := by
  have hbound : bound ≤ rank - 1 := by
    have hrank := strictMono_units.lt_iff_lt.1 hlt
    omega
  have hprev : units bound ≤ units (rank - 1) := strictMono_units.monotone hbound
  have hsum : (2 * units bound : ℚ) < (units (rank - 1) + units rank : Nat) := by
    exact_mod_cast (by omega : 2 * units bound < units (rank - 1) + units rank)
  have hlow := (shortest_between h).1
  linarith

/-! ## Integral magnitudes -/

/-- Two multiples of a step are the same if they are less than a step apart. -/
theorem eq_of_close {step a b : Nat} (hlow : 2 * (step * b) ≤ 2 * (step * a) + step)
    (hhigh : 2 * (step * a) ≤ 2 * (step * b) + step) (hstep : 0 < step) : a = b := by
  rcases Nat.lt_trichotomy a b with hlt | heq | hgt
  · have hnext := Nat.mul_le_mul_left step hlt
    rw [Nat.mul_succ] at hnext
    omega
  · exact heq
  · have hnext := Nat.mul_le_mul_left step hgt
    rw [Nat.mul_succ] at hnext
    omega

theorem unitsOfOne_eq_pow : ∃ n, unitsOfOne = 2 ^ n := by
  unfold unitsOfOne
  generalize 1074 = n
  exact ⟨n, rfl⟩

/-- A magnitude whose steps are fractions is on one grid with the integers, so that an integer that
reads back as the magnitude is the magnitude. Larger magnitudes are integral anyway. -/
theorem integral_of_shortest {rank : Nat} (h : rank ≠ 0)
    (hexponent : 0 ≤ (shortest rank).exponent) : units rank % unitsOfOne = 0 := by
  obtain ⟨hlow, hhigh⟩ := shortest_between h
  rw [Decimal.rational_of_nonneg hexponent] at hlow hhigh
  generalize Decimal.ofDigits _ = n at hlow hhigh
  have hbelow : units (rank - 1) + units rank ≤ 2 * (unitsOfOne * n) := by exact_mod_cast hlow
  have habove : 2 * (unitsOfOne * n) ≤ units rank + units (rank + 1) := by exact_mod_cast hhigh
  obtain ⟨one, hone⟩ := unitsOfOne_eq_pow
  have hunits : units rank = 2 ^ scale rank * significand rank := Nat.mul_comm _ _
  have hprev := units_le_units_pred rank
  rw [units_succ] at habove
  generalize scale rank = s at *
  generalize units (rank - 1) = prev at *
  generalize significand rank = b at *
  rw [hone] at hbelow habove ⊢
  rw [hunits] at hbelow habove hprev ⊢
  rcases Nat.le_total one s with hlarge | hsmall
  · obtain ⟨more, rfl⟩ := Nat.exists_eq_add_of_le hlarge
    rw [pow_add, Nat.mul_assoc]
    exact Nat.mul_mod_right _ _
  · obtain ⟨more, rfl⟩ := Nat.exists_eq_add_of_le hsmall
    rw [pow_add, Nat.mul_assoc] at hbelow habove
    have hsame : 2 ^ more * n = b :=
      eq_of_close (by omega) (by omega) (Nat.two_pow_pos s)
    rw [← hsame, ← Nat.mul_assoc, ← pow_add]
    exact Nat.mul_mod_right _ _

/-! ## Plain magnitudes -/

/-- An integral magnitude below 10^21. -/
def IsPlain (rank : Nat) : Prop :=
  units rank % unitsOfOne = 0 ∧ units rank < 10 ^ 21 * unitsOfOne

instance (rank : Nat) : Decidable (IsPlain rank) := inferInstanceAs (Decidable (_ ∧ _))

def sextillion : Nat := 1091 * 2 ^ 52 + 7629394531250000

theorem units_sextillion : units sextillion = 10 ^ 21 * unitsOfOne := by decide +kernel

theorem shortest_sextillion : shortest sextillion = ⟨1, 21⟩ := by decide +kernel

theorem shortest_lt_sextillion_iff {rank : Nat} (h : rank ≠ 0) :
    (shortest rank).rational < 10 ^ (21 : ℤ) ↔ units rank < 10 ^ 21 * unitsOfOne := by
  have hone : (0 : ℚ) < unitsOfOne := by exact_mod_cast unitsOfOne_pos
  have hbound : (units sextillion : ℚ) = unitsOfOne * 10 ^ (21 : ℤ) := by
    rw [units_sextillion]
    push_cast
    exact mul_comm _ _
  rw [← units_sextillion]
  rcases Nat.lt_trichotomy (units rank) (units sextillion) with hlt | heq | hgt
  · have hless := shortest_lt_of_units_lt h hlt
    rw [hbound] at hless
    exact iff_of_true (lt_of_mul_lt_mul_left hless hone.le) hlt
  · obtain rfl := strictMono_units.injective heq
    have hvalue : (shortest sextillion).rational = 10 ^ (21 : ℤ) := by
      rw [shortest_sextillion]
      exact one_mul _
    rw [hvalue]
    exact iff_of_false (lt_irrefl _) (lt_irrefl _)
  · have hmore := lt_shortest_of_lt_units h hgt
    rw [hbound] at hmore
    exact iff_of_false (lt_of_mul_lt_mul_left hmore hone.le).not_gt hgt.not_gt

/-- A magnitude is plain if its shortest decimal ends at the point or before, and the point stands
no further than 21 places on. -/
theorem isPlain_iff {rank : Nat} (h : rank ≠ 0) :
    IsPlain rank ↔ 0 ≤ (shortest rank).exponent ∧ (shortest rank).point ≤ 21 := by
  rw [Decimal.point_le_iff (coefficient_shortest_ne_zero h), shortest_lt_sextillion_iff h]
  exact and_congr_left' ⟨shortest_exponent_nonneg, integral_of_shortest h⟩

end Binary64

/-! ## Texts of digits alone -/

/-- Whether a text is nothing but digits and a sign. -/
def isWhole (text : List Char) : Bool := text.all fun c => c.isDigit || c == '-'

theorem not_isWhole_of_mem {text : List Char} {c : Char} (hc : c ∈ text)
    (hdigit : c.isDigit = false) (hsign : c ≠ '-') : ¬isWhole text = true := by
  intro h
  have hwhole := List.all_eq_true.1 h c hc
  simp [hdigit, hsign] at hwhole

theorem isWhole_append {s t : List Char} : isWhole (s ++ t) = (isWhole s && isWhole t) :=
  List.all_append

theorem isWhole_of_digits {ds : List Char} (h : ∀ c ∈ ds, c.isDigit = true) :
    isWhole ds = true :=
  List.all_eq_true.2 fun c hc => by simp [h c hc]

theorem isWhole_sign (p : Prop) [Decidable p] :
    isWhole (if p then ['-'] else []) = true := by
  split
  · rfl
  · rfl

namespace Layout

variable {ds : List Char} {point : Int}

/-- Digits that end at the point or before it stand alone. -/
theorem isWhole_positional {layout : Layout} (hmarks : layout.marksFloat = false)
    (hds : AreDigits ds) (hpoint : (ds.length : ℤ) ≤ point) :
    isWhole (layout.positional ds point) = true := by
  have hlength : 0 < ds.length := List.length_pos_of_ne_nil hds.1
  rw [positional, if_neg (by omega), if_neg (by omega), hmarks]
  have hzeros := (hds.append_zeros (point - ds.length).toNat).2
  simpa using isWhole_of_digits hzeros

theorem point_mem_positional {layout : Layout} (hpoint : point < ds.length) :
    '.' ∈ layout.positional ds point := by
  rw [positional]
  split
  · simp
  · simp

theorem e_mem_exponential (layout : Layout) (ds : List Char) (point : Int) :
    'e' ∈ layout.exponential ds point := by
  simp [exponential]

/-- The layout of shown text, with exponents of at least so many digits. -/
def shown (width : Nat) : Layout := { display with exponentWidth := width }

/-- However exponents are padded, the plain magnitudes are shown with digits alone, and no others
are. -/
theorem isWhole_shown_magnitude_iff (width rank : Nat) :
    isWhole ((shown width).magnitude rank) = true ↔ Binary64.IsPlain rank := by
  rcases Nat.eq_zero_or_pos rank with rfl | hpos
  · exact iff_of_true rfl (by decide +kernel)
  · have hrank : rank ≠ 0 := hpos.ne'
    have hdigits := AreDigits.digits (Binary64.shortest rank).coefficient
    rw [Binary64.isPlain_iff hrank, magnitude, if_neg hrank]
    dsimp only
    split
    · next hplain =>
      refine iff_of_true (isWhole_positional rfl hdigits ?_) hplain
      rw [Decimal.point]
      omega
    · next hother =>
      refine iff_of_false ?_ hother
      split
      · next hplace =>
        -- so few places are plain unless there are digits behind the point
        have hfraction : (Binary64.shortest rank).exponent < 0 := by
          by_contra hexponent
          exact hother ⟨not_lt.1 hexponent, hplace.2.trans (show (16 : ℤ) ≤ 21 by decide)⟩
        refine not_isWhole_of_mem (point_mem_positional ?_) rfl (by decide)
        rw [Decimal.point]
        omega
      · exact not_isWhole_of_mem (e_mem_exponential _ _ _) rfl (by decide)

/-- Inside structured text, the plain numbers are written with digits alone, and no others are. -/
theorem isWhole_nested_iff (negative : Bool) (rank : Fin Binary64.rankBound) :
    isWhole (nested.write (.finite negative rank)) = true ↔ Binary64.IsPlain rank := by
  rw [← isWhole_shown_magnitude_iff 2, write, isWhole_append, isWhole_sign, Bool.true_and]
  rfl

end Layout

end LiveValue
