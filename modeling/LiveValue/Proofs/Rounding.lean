import LiveValue.Proofs.PlainNumbers

/-!
# Rounding to binary64 numbers

A count of units becomes the nearest magnitude, and halfway between two magnitudes the one whose
significand is even. So every rank has an interval of its own, and rounding finds the rank in whose
interval a count lies. A decimal is read as a number, and an integer converted to one, by this
alone: in which way it was written has no part in it.

* `Binary64.RoundsTo`: a count of units lies in the interval of a rank;
* `Binary64.roundsTo_nearestRank`: rounding finds a rank in whose interval the count lies;
* `Binary64.RoundsTo.unique`: there is only one such rank;
* `Binary64.exists_ofDecimal_eq_ofRank`, `Binary64.ofDecimal_eq_iff`: the number that a decimal is read
  as, and the decimals that are read as a number;
* `Binary64.roundsTo_shortest`: the shortest decimal is one of them.
-/

namespace LiveValue.Binary64

/-- A count of units lies in the interval of a rank: between the points halfway to the neighbouring
magnitudes, where these points themselves belong to it if its significand is even. -/
structure RoundsTo (rank : Nat) (count : ℚ) : Prop where
  low : ((units (rank - 1) + units rank : Nat) : ℚ) ≤ 2 * count
  high : 2 * count ≤ (units rank + units (rank + 1) : Nat)
  even_of_low : 2 * count = (units (rank - 1) + units rank : Nat) → significand rank % 2 = 0
  even_of_high : 2 * count = (units rank + units (rank + 1) : Nat) → significand rank % 2 = 0

/-- The interval of a rank, without fractions. -/
theorem roundsTo_div_iff {rank numerator denominator : Nat} (h : 0 < denominator) :
    RoundsTo rank (numerator / denominator) ↔
      (units (rank - 1) + units rank) * denominator ≤ 2 * numerator ∧
      2 * numerator ≤ (units rank + units (rank + 1)) * denominator ∧
      (2 * numerator = (units (rank - 1) + units rank) * denominator → significand rank % 2 = 0) ∧
      (2 * numerator = (units rank + units (rank + 1)) * denominator →
        significand rank % 2 = 0) := by
  have hpos : (0 : ℚ) < denominator := by exact_mod_cast h
  have htwice : 2 * ((numerator : ℚ) / denominator) = (2 * numerator : Nat) / denominator := by
    push_cast
    ring
  have hlow (a : Nat) : (a : ℚ) ≤ 2 * (numerator / denominator) ↔
      a * denominator ≤ 2 * numerator := by
    rw [htwice, le_div_iff₀ hpos]
    exact_mod_cast Iff.rfl
  have hhigh (a : Nat) : 2 * ((numerator : ℚ) / denominator) ≤ a ↔
      2 * numerator ≤ a * denominator := by
    rw [htwice, div_le_iff₀ hpos]
    exact_mod_cast Iff.rfl
  have heq (a : Nat) : 2 * ((numerator : ℚ) / denominator) = a ↔
      2 * numerator = a * denominator := by
    rw [htwice, div_eq_iff hpos.ne']
    exact_mod_cast Iff.rfl
  constructor
  · rintro ⟨low, high, evenLow, evenHigh⟩
    rw [hlow] at low
    rw [hhigh] at high
    rw [heq] at evenLow evenHigh
    exact ⟨low, high, evenLow, evenHigh⟩
  · rintro ⟨low, high, evenLow, evenHigh⟩
    exact ⟨(hlow _).2 low, (hhigh _).2 high, fun h => evenLow ((heq _).1 h),
      fun h => evenHigh ((heq _).1 h)⟩

/-! ## Neighbouring ranks -/

/-- Ranks run on by an even number from one scale to the next. -/
theorem significand_mod_two (rank : Nat) : significand rank % 2 = rank % 2 := by
  have hpow : Nat.pow 2 52 = 2 ^ 52 := rfl
  unfold significand scale
  rw [hpow]
  omega

/-- The intervals of two ranks have no point in common: two that touch have significands of which
only one is even. -/
theorem RoundsTo.unique {rank other : Nat} {count : ℚ} (h : RoundsTo rank count)
    (h' : RoundsTo other count) : rank = other := by
  have hnot {low high : Nat} (hlow : RoundsTo low count) (hhigh : RoundsTo high count) :
      ¬low < high := by
    intro hlt
    have hsum : units low + units (low + 1) ≤ units (high - 1) + units high := by
      have hfirst : units low ≤ units (high - 1) := strictMono_units.monotone (by omega)
      have hsecond : units (low + 1) ≤ units high := strictMono_units.monotone hlt
      omega
    have hsame : ((units low + units (low + 1) : Nat) : ℚ)
        = (units (high - 1) + units high : Nat) :=
      le_antisymm (by exact_mod_cast hsum) (hhigh.low.trans hlow.high)
    have htwice : 2 * count = (units low + units (low + 1) : Nat) :=
      le_antisymm hlow.high (hsame.trans_le hhigh.low)
    -- the intervals only touch if nothing lies between the ranks
    have hnext : high = low + 1 := by
      by_contra hne
      have hfirst : units low < units (high - 1) := strictMono_units (by omega)
      have hsecond : units (low + 1) ≤ units high := strictMono_units.monotone hlt
      have hnat : units low + units (low + 1) = units (high - 1) + units high := by
        exact_mod_cast hsame
      omega
    have hevenLow := hlow.even_of_high htwice
    have hevenHigh := hhigh.even_of_low (htwice.trans hsame)
    rw [significand_mod_two] at hevenLow hevenHigh
    omega
  have hle := hnot h h'
  have hge := hnot h' h
  omega

/-! ## Rounding a quotient -/

/-- A significand with its scale, as rounding makes them: only the least scale has significands of
fewer than 53 bits, and one of 54 bits is a power of two that carries into the next scale. -/
structure Scaled (scale significand : Nat) : Prop where
  full : scale = 0 ∨ 2 ^ 52 ≤ significand
  bounded : significand ≤ 2 ^ 53

namespace Scaled

variable {s n : Nat}

/-- The rank's own scale is the same, or the next one if the significand carried. -/
theorem scale_eq (h : Scaled s n) :
    scale (s * 2 ^ 52 + n) = s ∧ n < 2 ^ 53 ∨ scale (s * 2 ^ 52 + n) = s + 1 ∧ n = 2 ^ 53 := by
  have hpow : Nat.pow 2 52 = 2 ^ 52 := rfl
  obtain ⟨hfull, hbounded⟩ := h
  unfold scale
  rw [hpow]
  omega

theorem units_eq (h : Scaled s n) : units (s * 2 ^ 52 + n) = n * 2 ^ s := by
  have hpow : Nat.pow 2 52 = 2 ^ 52 := rfl
  unfold units significand
  rw [hpow]
  rcases h.scale_eq with ⟨hscale, -⟩ | ⟨hscale, rfl⟩
  · rw [hscale, Nat.add_sub_cancel_left]
    rfl
  · have hhalf : s * 2 ^ 52 + 2 ^ 53 - (s + 1) * 2 ^ 52 = 2 ^ 52 := by omega
    have htwo : Nat.pow 2 (s + 1) = 2 * 2 ^ s := pow_succ' 2 s
    rw [hscale, hhalf, htwo]
    ring

/-- The next magnitude is at least one step of the scale away. -/
theorem units_add_step_le (h : Scaled s n) :
    n * 2 ^ s + 2 ^ s ≤ units (s * 2 ^ 52 + n + 1) := by
  have hscale : s ≤ scale (s * 2 ^ 52 + n) := by
    rcases h.scale_eq with ⟨hscale, -⟩ | ⟨hscale, -⟩ <;> omega
  have hstep : 2 ^ s ≤ 2 ^ scale (s * 2 ^ 52 + n) := Nat.pow_le_pow_right (by decide) hscale
  rw [units_succ, h.units_eq]
  omega

/-- The magnitude before is one step of the scale away, unless the significand is the least one of
its scale. -/
theorem units_pred (h : Scaled s (n + 1)) (hleast : s = 0 ∨ 2 ^ 52 ≤ n) :
    units (s * 2 ^ 52 + (n + 1) - 1) = n * 2 ^ s := by
  have hbefore : Scaled s n := ⟨hleast, (Nat.le_succ n).trans h.bounded⟩
  rw [← Nat.add_assoc, Nat.add_sub_cancel, hbefore.units_eq]

end Scaled

/-- The natural number nearest to a quotient. -/
theorem roundQuotient_spec (numerator : Nat) {denominator : Nat} (h : 0 < denominator) :
    2 * (roundQuotient numerator denominator * denominator) ≤ 2 * numerator + denominator ∧
      2 * numerator ≤ 2 * (roundQuotient numerator denominator * denominator) + denominator ∧
      (2 * (roundQuotient numerator denominator * denominator) = 2 * numerator + denominator →
        roundQuotient numerator denominator % 2 = 0) ∧
      (2 * numerator = 2 * (roundQuotient numerator denominator * denominator) + denominator →
        roundQuotient numerator denominator % 2 = 0) := by
  have hdivision := Nat.div_add_mod' numerator denominator
  have hmod := Nat.mod_lt numerator h
  unfold roundQuotient
  dsimp only
  generalize numerator / denominator = whole at *
  generalize numerator % denominator = rest at *
  have hnext : (whole + 1) * denominator = whole * denominator + denominator := by ring
  split
  · next hup =>
    rw [hnext]
    omega
  · next hdown => omega

theorem roundQuotient_bounds (numerator denominator : Nat) :
    numerator / denominator ≤ roundQuotient numerator denominator ∧
      roundQuotient numerator denominator ≤ numerator / denominator + 1 := by
  unfold roundQuotient
  dsimp only
  split <;> omega

/-! ## Scales -/

/-- A quotient has no more than 53 binary places above its scale. -/
theorem div_scale_lt (numerator denominator : Nat) :
    numerator / (denominator * 2 ^ (Nat.log2 (numerator / denominator) - 52)) < 2 ^ 53 := by
  have hlog := Nat.lt_log2_self (n := numerator / denominator)
  have hpow : 2 ^ (Nat.log2 (numerator / denominator) + 1)
      ≤ 2 ^ 53 * 2 ^ (Nat.log2 (numerator / denominator) - 52) := by
    rw [← pow_add]
    exact Nat.pow_le_pow_right (by decide) (by omega)
  rw [← Nat.div_div_eq_div_mul]
  exact (Nat.div_lt_iff_lt_mul (Nat.two_pow_pos _)).2 (hlog.trans_le hpow)

/-- It has no fewer, unless it is not scaled at all. -/
theorem mul_scale_le {numerator denominator s : Nat}
    (hs : s = Nat.log2 (numerator / denominator) - 52) (hmore : 0 < s) :
    2 ^ 52 * (denominator * 2 ^ s) ≤ numerator := by
  have hne : numerator / denominator ≠ 0 := by
    intro hzero
    rw [hzero, Nat.log2_zero] at hs
    omega
  have hlog : 2 ^ (52 + s) ≤ numerator / denominator := by
    have hself := Nat.log2_self_le hne
    have hexponent : Nat.log2 (numerator / denominator) = 52 + s := by omega
    rwa [hexponent] at hself
  calc 2 ^ 52 * (denominator * 2 ^ s) = 2 ^ (52 + s) * denominator := by
        rw [pow_add]
        ring
    _ ≤ numerator / denominator * denominator := Nat.mul_le_mul_right _ hlog
    _ ≤ numerator := Nat.div_mul_le_self _ _

/-- How far a quotient is scaled down before it is rounded. -/
theorem scaled_nearestRank (numerator : Nat) {denominator : Nat} (h : 0 < denominator) :
    ∃ s n, nearestRank numerator denominator = s * 2 ^ 52 + n ∧
      n = roundQuotient numerator (denominator * 2 ^ s) ∧ Scaled s n ∧
      (s = 0 ∨ 2 ^ 52 * (denominator * 2 ^ s) ≤ numerator) := by
  obtain ⟨s, hs⟩ : ∃ s, s = Nat.log2 (numerator / denominator) - 52 := ⟨_, rfl⟩
  obtain ⟨hlow, hhigh⟩ := roundQuotient_bounds numerator (denominator * 2 ^ s)
  have hpos : 0 < denominator * 2 ^ s := Nat.mul_pos h (Nat.two_pow_pos s)
  have hsize : numerator / (denominator * 2 ^ s) < 2 ^ 53 := by
    rw [hs]
    exact div_scale_lt numerator denominator
  have hfull : s = 0 ∨ 2 ^ 52 * (denominator * 2 ^ s) ≤ numerator :=
    s.eq_zero_or_pos.imp_right (mul_scale_le hs)
  refine ⟨s, _, ?_, rfl, ⟨hfull.imp_right fun hmore => ?_, ?_⟩, hfull⟩
  · rw [hs]
    rfl
  · exact ((Nat.le_div_iff_mul_le hpos).2 hmore).trans hlow
  · omega

/-- A quotient that is rounded to a significand does not lie below the middle between the magnitude
that has it and the magnitude before; in the middle, the significand is even. -/
theorem Scaled.midpoint_le {s n numerator denominator : Nat} (h : Scaled s n)
    (hbelow : 2 * (n * (denominator * 2 ^ s)) ≤ 2 * numerator + denominator * 2 ^ s)
    (heven : 2 * (n * (denominator * 2 ^ s)) = 2 * numerator + denominator * 2 ^ s → n % 2 = 0)
    (hfull : s = 0 ∨ 2 ^ 52 * (denominator * 2 ^ s) ≤ numerator) :
    units (s * 2 ^ 52 + n - 1) * denominator + n * (denominator * 2 ^ s) ≤ 2 * numerator ∧
      (2 * numerator = units (s * 2 ^ 52 + n - 1) * denominator + n * (denominator * 2 ^ s) →
        n % 2 = 0) := by
  cases n with
  | zero =>
    -- a significand of zero has the least scale, and nothing lies before it
    have hs : s = 0 := h.full.resolve_right (by decide)
    have hzero : units (s * 2 ^ 52 + 0 - 1) = 0 := by
      rw [hs, Nat.zero_mul]
      rfl
    rw [hzero, Nat.zero_mul, Nat.zero_mul]
    exact ⟨Nat.zero_le _, fun _ => rfl⟩
  | succ m =>
    have hsucc : (m + 1) * (denominator * 2 ^ s)
        = m * (denominator * 2 ^ s) + denominator * 2 ^ s := by ring
    by_cases hleast : s = 0 ∨ 2 ^ 52 ≤ m
    · have hbefore : m * 2 ^ s * denominator = m * (denominator * 2 ^ s) := by ring
      rw [h.units_pred hleast, hbefore]
      omega
    · -- the least significand of its scale was not rounded up
      have hm : m + 1 = 2 ^ 52 := by
        have hbound := h.full
        omega
      have hle : units (s * 2 ^ 52 + (m + 1) - 1) * denominator
          ≤ (m + 1) * (denominator * 2 ^ s) := by
        calc units (s * 2 ^ 52 + (m + 1) - 1) * denominator
            ≤ units (s * 2 ^ 52 + (m + 1)) * denominator :=
              Nat.mul_le_mul_right _ (strictMono_units.monotone (Nat.sub_le _ _))
          _ = (m + 1) * (denominator * 2 ^ s) := by
              rw [h.units_eq]
              ring
      have hexact := hfull.resolve_left fun hs => hleast (.inl hs)
      rw [← hm] at hexact
      omega

/-- Rounding finds a rank in whose interval the quotient lies. -/
theorem roundsTo_nearestRank (numerator : Nat) {denominator : Nat} (h : 0 < denominator) :
    RoundsTo (nearestRank numerator denominator) (numerator / denominator) := by
  obtain ⟨s, n, hrank, hn, hscaled, hfull⟩ := scaled_nearestRank numerator h
  obtain ⟨hbelow, habove, hevenBelow, hevenAbove⟩ :=
    roundQuotient_spec numerator (Nat.mul_pos h (Nat.two_pow_pos s))
  rw [← hn] at hbelow habove hevenBelow hevenAbove
  obtain ⟨hlow, hevenLow⟩ := hscaled.midpoint_le hbelow hevenBelow hfull
  have hparity : significand (s * 2 ^ 52 + n) % 2 = n % 2 := by
    rw [significand_mod_two]
    omega
  have hnext := Nat.mul_le_mul_right denominator hscaled.units_add_step_le
  have hstep : (n * 2 ^ s + 2 ^ s) * denominator
      = n * (denominator * 2 ^ s) + denominator * 2 ^ s := by ring
  have hhere : n * 2 ^ s * denominator = n * (denominator * 2 ^ s) := by ring
  rw [roundsTo_div_iff h, hrank, hparity, hscaled.units_eq, Nat.add_mul, Nat.add_mul, hhere]
  rw [hstep] at hnext
  exact ⟨hlow, by omega, hevenLow, fun heq => hevenAbove (by omega)⟩

/-! ## Decimals -/

namespace RoundsTo

variable {rank : Nat} {count : ℚ}

/-- Only the rank zero has counts of less than half a unit. -/
theorem one_le_two_mul (h : RoundsTo rank count) (hrank : rank ≠ 0) : 1 ≤ 2 * count := by
  have hunits : 1 ≤ units (rank - 1) + units rank := by
    have hpos := units_pos hrank
    omega
  exact le_trans (by exact_mod_cast hunits) h.low

theorem ne_zero (h : RoundsTo rank count) (hrank : rank ≠ 0) : count ≠ 0 := by
  rintro rfl
  have hlow := h.one_le_two_mul hrank
  norm_num at hlow

theorem le_units_rankBound (h : RoundsTo rank count) (hrank : rank < rankBound) :
    count ≤ units rankBound := by
  have hhere : units rank ≤ units rankBound := strictMono_units.monotone hrank.le
  have hnext : units (rank + 1) ≤ units rankBound := strictMono_units.monotone hrank
  have hsum : ((units rank + units (rank + 1) : Nat) : ℚ) ≤ 2 * units rankBound := by
    exact_mod_cast (by omega : units rank + units (rank + 1) ≤ 2 * units rankBound)
  have hhigh := h.high
  linarith

end RoundsTo

theorem units_rankBound_lt : units rankBound < unitsOfOne * 10 ^ 310 := by decide +kernel

theorem two_mul_unitsOfOne_lt : 2 * unitsOfOne < 10 ^ 399 := by decide +kernel

/-- The power of ten of a decimal, as a quotient. -/
theorem div_pow_toNat_eq (coefficient : Nat) (exponent : ℤ) :
    ((coefficient * unitsOfOne * Nat.pow 10 exponent.toNat : Nat) : ℚ)
        / (Nat.pow 10 (-exponent).toNat : Nat)
      = unitsOfOne * (coefficient * 10 ^ exponent) := by
  have hpower : (10 : ℚ) ^ exponent = 10 ^ exponent.toNat / 10 ^ (-exponent).toNat := by
    have hsplit : exponent = (exponent.toNat : ℤ) - ((-exponent).toNat : ℤ) := by omega
    conv_lhs => rw [hsplit]
    rw [zpow_sub₀ (by norm_num), zpow_natCast, zpow_natCast]
  rw [hpower, Nat.pow_eq, Nat.pow_eq]
  push_cast
  ring

/-- The decimals in the interval of a finite magnitude have no large exponent. -/
theorem RoundsTo.exponent_lt {rank coefficient : Nat} {exponent : ℤ}
    (h : RoundsTo rank (unitsOfOne * (coefficient * 10 ^ exponent))) (hbound : rank < rankBound)
    (hne : coefficient ≠ 0) : exponent < 310 := by
  by_contra hlarge
  have hone : (0 : ℚ) < unitsOfOne := by exact_mod_cast unitsOfOne_pos
  have hpower : (10 : ℚ) ^ (310 : ℤ) ≤ 10 ^ exponent :=
    zpow_le_zpow_right₀ (by norm_num) (not_lt.1 hlarge)
  have hcoefficient : (1 : ℚ) ≤ coefficient := by exact_mod_cast Nat.one_le_iff_ne_zero.2 hne
  have hvalue : (10 : ℚ) ^ (310 : ℤ) ≤ coefficient * 10 ^ exponent :=
    hpower.trans (le_mul_of_one_le_left (by positivity) hcoefficient)
  have hmax : (units rankBound : ℚ) < unitsOfOne * 10 ^ (310 : ℤ) := by
    have hnat := units_rankBound_lt
    rw [zpow_ofNat]
    exact_mod_cast hnat
  have hhigh := h.le_units_rankBound hbound
  exact absurd (hhigh.trans_lt hmax) (not_lt.2 (mul_le_mul_of_nonneg_left hvalue hone.le))

/-- The decimals in the interval of a positive magnitude have no exponent far below zero. -/
theorem RoundsTo.le_exponent {rank coefficient : Nat} {exponent : ℤ}
    (h : RoundsTo rank (unitsOfOne * (coefficient * 10 ^ exponent))) (hrank : rank ≠ 0) :
    0 ≤ exponent + Nat.log2 coefficient + 400 := by
  by_contra hsmall
  have hone : (0 : ℚ) < unitsOfOne := by exact_mod_cast unitsOfOne_pos
  have hlow := h.one_le_two_mul hrank
  have hcoefficient : (coefficient : ℚ) < 10 ^ (Nat.log2 coefficient + 1) := by
    have hlog := Nat.lt_log2_self (n := coefficient)
    exact_mod_cast hlog.trans_le (Nat.pow_le_pow_left (by decide) _)
  have hvalue : (coefficient : ℚ) * 10 ^ exponent < 10 ^ (-399 : ℤ) := by
    calc (coefficient : ℚ) * 10 ^ exponent
        < 10 ^ (Nat.log2 coefficient + 1) * 10 ^ exponent :=
          mul_lt_mul_of_pos_right hcoefficient (by positivity)
      _ = 10 ^ (((Nat.log2 coefficient + 1 : Nat) : ℤ) + exponent) := by
          rw [zpow_add₀ (by norm_num), zpow_natCast]
      _ ≤ 10 ^ (-399 : ℤ) := zpow_le_zpow_right₀ (by norm_num) (by omega)
  have hunits : (2 * unitsOfOne : ℚ) < 10 ^ (399 : ℤ) := by
    have hnat := two_mul_unitsOfOne_lt
    rw [zpow_ofNat]
    exact_mod_cast hnat
  have hnonneg : (0 : ℚ) ≤ coefficient * 10 ^ exponent :=
    mul_nonneg (Nat.cast_nonneg _) (zpow_nonneg (by norm_num) _)
  have hproduct : (2 * unitsOfOne : ℚ) * (coefficient * 10 ^ exponent)
      < 10 ^ (399 : ℤ) * 10 ^ (-399 : ℤ) :=
    mul_lt_mul'' hunits hvalue (mul_pos two_pos hone).le hnonneg
  rw [zpow_neg, mul_inv_cancel₀ (by positivity), mul_assoc] at hproduct
  exact absurd hproduct (not_lt.2 hlow)

theorem ofRank_eq_finite_iff {negative : Bool} {found : Nat} {rank : Fin rankBound} :
    ofRank negative found = .finite negative rank ↔ found = rank := by
  unfold ofRank
  constructor
  · intro h
    split at h
    · cases h
      rfl
    · cases h
  · rintro rfl
    rw [dif_pos rank.2]

/-- A decimal is read as the number of the rank in whose interval it lies; what is told apart
beforehand changes no answer. -/
theorem exists_ofDecimal_eq_ofRank (negative : Bool) (coefficient : Nat) (exponent : ℤ) :
    ∃ rank, RoundsTo rank (unitsOfOne * (coefficient * 10 ^ exponent)) ∧
      ofDecimal negative coefficient exponent = ofRank negative rank := by
  have hden : 0 < Nat.pow 10 (-exponent).toNat := ten_pow_pos _
  obtain ⟨rank, hrank⟩ : ∃ rank, rank = nearestRank
    (coefficient * unitsOfOne * Nat.pow 10 exponent.toNat) (Nat.pow 10 (-exponent).toNat) := ⟨_, rfl⟩
  have hrounds : RoundsTo rank (unitsOfOne * (coefficient * 10 ^ exponent)) := by
    rw [hrank, ← div_pow_toNat_eq]
    exact roundsTo_nearestRank _ hden
  refine ⟨rank, hrounds, ?_⟩
  unfold ofDecimal
  dsimp only
  rw [← hrank]
  split
  · next hzero =>
    have hleast : rank = 0 := by
      by_contra hne
      exact hrounds.ne_zero hne (by rw [hzero, Nat.cast_zero, zero_mul, mul_zero])
    rw [hleast]
    rfl
  · next hne =>
    split
    · next hlarge =>
      have hbound : ¬rank < rankBound := fun hbound =>
        not_lt.2 hlarge (hrounds.exponent_lt hbound hne)
      rw [ofRank, dif_neg hbound]
    · split
      · next hsmall =>
        have hleast : rank = 0 := by
          by_contra hrank
          exact not_lt.2 (hrounds.le_exponent hrank) hsmall
        rw [hleast]
        rfl
      · rfl

/-- A decimal is read as the number in whose interval it lies. -/
theorem ofDecimal_eq_iff {negative : Bool} {coefficient : Nat} {exponent : ℤ}
    {rank : Fin rankBound} :
    ofDecimal negative coefficient exponent = .finite negative rank ↔
      RoundsTo rank (unitsOfOne * (coefficient * 10 ^ exponent)) := by
  obtain ⟨found, hfound, hnumber⟩ := exists_ofDecimal_eq_ofRank negative coefficient exponent
  rw [hnumber, ofRank_eq_finite_iff]
  constructor
  · rintro rfl
    exact hfound
  · exact fun hrank => hfound.unique hrank

/-- An integer is converted to the number in whose interval it lies. -/
theorem ofInt?_eq_some {i : Int} {rank : Fin rankBound} (h : (rank : Nat) ≠ 0)
    (hrounds : RoundsTo rank (unitsOfOne * i.natAbs)) :
    ofInt? i = some (.finite (decide (i < 0)) rank) := by
  have hi : i ≠ 0 := by
    rintro rfl
    exact hrounds.ne_zero h (by rw [Int.natAbs_zero, Nat.cast_zero, mul_zero])
  have hcount : (i * unitsOfOne).natAbs = i.natAbs * unitsOfOne := by
    rw [Int.natAbs_mul, Int.natAbs_natCast]
  have hone : (0 : ℤ) < unitsOfOne := by exact_mod_cast unitsOfOne_pos
  have hsign : (i * unitsOfOne < 0) = (i < 0) :=
    propext ⟨fun hneg => neg_of_mul_neg_left hneg hone.le,
      fun hneg => mul_neg_of_neg_of_pos hneg hone⟩
  have hfound := roundsTo_nearestRank (i.natAbs * unitsOfOne) Nat.one_pos
  have hquotient : ((i.natAbs * unitsOfOne : Nat) : ℚ) / (1 : Nat) = unitsOfOne * i.natAbs := by
    push_cast
    ring
  rw [hquotient] at hfound
  have hunits : ofUnits false (i * unitsOfOne) = .finite (decide (i < 0)) rank := by
    unfold ofUnits
    rw [if_neg (mul_ne_zero hi hone.ne'), hcount]
    simp only [hsign]
    exact ofRank_eq_finite_iff.2 (hfound.unique hrounds)
  unfold ofInt?
  rw [hunits]

/-! ## The shortest decimal -/

/-- Reading back, on the scale of the decimals, is lying in the interval. -/
theorem readsBack_iff (rank point : Nat) :
    readsBack rank point = true ↔
      RoundsTo rank (point / (2 * Nat.pow 10 gridPower : Nat)) := by
  have hgrid : 0 < Nat.pow 10 gridPower := ten_pow_pos _
  rw [roundsTo_div_iff (Nat.mul_pos (by decide) hgrid)]
  have hscaled (a : Nat) :
      a * (2 * Nat.pow 10 gridPower) = 2 * (a * Nat.pow 10 gridPower) := by ring
  rw [hscaled, hscaled]
  change _ ↔ 2 * lowerEnd rank ≤ 2 * point ∧ 2 * point ≤ 2 * upperEnd rank ∧
    (2 * point = 2 * lowerEnd rank → _) ∧ (2 * point = 2 * upperEnd rank → _)
  unfold readsBack
  generalize lowerEnd rank = low
  generalize upperEnd rank = high
  split
  · next heven =>
    simp only [Bool.and_eq_true, decide_eq_true_eq]
    omega
  · next hodd =>
    simp only [Bool.and_eq_true, decide_eq_true_eq]
    omega

/-- A decimal reads back if it lies in the interval. -/
theorem readsBack_mul_spacing_iff {rank count : Nat} {d : Decimal} (hcount : count ≤ 17)
    (hd : d.exponent = (places rank : Int) - 324 - count) :
    readsBack rank (d.coefficient * spacing rank count) = true ↔
      RoundsTo rank (unitsOfOne * d.rational) := by
  have hgrid : (0 : ℚ) < (Nat.pow 10 gridPower : Nat) := by exact_mod_cast ten_pow_pos gridPower
  have hquotient : ((d.coefficient * spacing rank count : Nat) : ℚ)
      / (2 * Nat.pow 10 gridPower : Nat) = unitsOfOne * d.rational := by
    rw [cast_mul_spacing hcount hd, Nat.cast_mul, Nat.cast_ofNat,
      div_eq_iff (mul_pos two_pos hgrid).ne']
    ring
  rw [readsBack_iff, hquotient]

/-- The shortest decimal lies in the interval of its magnitude. -/
theorem roundsTo_shortest {rank : Nat} (h : rank ≠ 0) :
    RoundsTo rank (unitsOfOne * (shortest rank).rational) := by
  obtain ⟨count, d, -, hcount, hd, -, hshortest⟩ := shortest_eq h
  obtain ⟨hexponent, hback⟩ := of_neighbour?_eq_some hd
  rw [hshortest, Decimal.rational_trim]
  exact (readsBack_mul_spacing_iff hcount hexponent).1 hback

end LiveValue.Binary64
