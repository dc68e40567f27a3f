import LiveValue.Proofs.Rounding

/-!
# The nearest binary64 number

The interval of a rank holds the counts of units to which its magnitude is nearest: no other
magnitude is closer, and one that is just as close has an odd significand. So a decimal is read as
the number nearest to it, where the magnitudes are taken to go on beyond the largest finite one, and
a decimal nearest to one of those beyond is read as infinite.

* `Binary64.isNearest_iff_roundsTo`: being nearest is lying in the interval;
* `Binary64.isRounded_ofDecimal`: a decimal is read as the number nearest to it;
* `Binary64.IsRounded.unique`: there is only one such number.
-/

namespace LiveValue

/-! ## Distances -/

section

variable {a b x : ℚ}

/-- Of two points, the upper one is at least as close as the lower one from halfway on. -/
theorem abs_sub_upper_le_iff (h : a < b) : |x - b| ≤ |x - a| ↔ a + b ≤ 2 * x := by
  rw [← sq_le_sq]
  constructor
  · intro hle
    nlinarith only [h, hle]
  · intro hle
    nlinarith only [h, hle]

/-- … and the lower one up to halfway. -/
theorem abs_sub_lower_le_iff (h : a < b) : |x - a| ≤ |x - b| ↔ 2 * x ≤ a + b := by
  rw [← sq_le_sq]
  constructor
  · intro hle
    nlinarith only [h, hle]
  · intro hle
    nlinarith only [h, hle]

end

namespace Binary64

/-! ## Nearest magnitudes -/

/-- The magnitude of a rank is nearest to a count of units: no other one is closer, and if one is
just as close, the significand of the rank is even. -/
structure IsNearest (rank : Nat) (count : ℚ) : Prop where
  closest : ∀ other, |count - units rank| ≤ |count - units other|
  even : ∀ other, other ≠ rank → |count - units other| ≤ |count - units rank| →
    significand rank % 2 = 0

variable {rank other : Nat} {count : ℚ}

theorem cast_units_lt (h : rank < other) : (units rank : ℚ) < units other := by
  exact_mod_cast strictMono_units h

theorem IsNearest.roundsTo (h : IsNearest rank count) (hcount : 0 ≤ count) :
    RoundsTo rank count := by
  have hnext := cast_units_lt (Nat.lt_succ_self rank)
  have hhigh : 2 * count ≤ units rank + units (rank + 1) :=
    (abs_sub_lower_le_iff hnext).1 (h.closest (rank + 1))
  have hevenHigh : 2 * count = units rank + units (rank + 1) → significand rank % 2 = 0 :=
    fun heq => h.even (rank + 1) (Nat.succ_ne_self rank) ((abs_sub_upper_le_iff hnext).2 heq.ge)
  cases rank with
  | zero =>
    -- nothing lies below the rank zero
    have hzero : units (0 - 1) + units 0 = 0 := rfl
    refine ⟨?_, by exact_mod_cast hhigh, fun _ => rfl, by exact_mod_cast hevenHigh⟩
    rw [hzero, Nat.cast_zero]
    exact mul_nonneg zero_le_two hcount
  | succ below =>
    have hstep := cast_units_lt (Nat.lt_succ_self below)
    have hlow : units below + units (below + 1) ≤ 2 * count :=
      (abs_sub_upper_le_iff hstep).1 (h.closest below)
    have hevenLow : 2 * count = units below + units (below + 1) →
        significand (below + 1) % 2 = 0 := fun heq =>
      h.even below (Nat.succ_ne_self below).symm ((abs_sub_lower_le_iff hstep).2 heq.le)
    exact ⟨by exact_mod_cast hlow, by exact_mod_cast hhigh, by exact_mod_cast hevenLow,
      by exact_mod_cast hevenHigh⟩

theorem RoundsTo.isNearest (h : RoundsTo rank count) : IsNearest rank count := by
  have hlow := h.low
  have hhigh := h.high
  push_cast at hlow hhigh
  -- another magnitude lies no closer than the neighbour on its side
  have hbelow {other : Nat} (hlt : other < rank) : (units other : ℚ) ≤ units (rank - 1) := by
    exact_mod_cast strictMono_units.monotone (Nat.le_sub_one_of_lt hlt)
  have habove {other : Nat} (hlt : rank < other) : (units (rank + 1) : ℚ) ≤ units other := by
    exact_mod_cast strictMono_units.monotone hlt
  constructor
  · intro other
    rcases lt_trichotomy other rank with hlt | rfl | hlt
    · rw [abs_sub_upper_le_iff (cast_units_lt hlt)]
      linarith only [hlow, hbelow hlt]
    · exact le_rfl
    · rw [abs_sub_lower_le_iff (cast_units_lt hlt)]
      linarith only [hhigh, habove hlt]
  · intro other hne hclose
    rcases lt_or_gt_of_ne hne with hlt | hlt
    · rw [abs_sub_lower_le_iff (cast_units_lt hlt)] at hclose
      refine h.even_of_low ?_
      push_cast
      linarith only [hlow, hclose, hbelow hlt]
    · rw [abs_sub_upper_le_iff (cast_units_lt hlt)] at hclose
      refine h.even_of_high ?_
      push_cast
      linarith only [hhigh, hclose, habove hlt]

theorem isNearest_iff_roundsTo (hcount : 0 ≤ count) : IsNearest rank count ↔ RoundsTo rank count :=
  ⟨fun h => h.roundsTo hcount, RoundsTo.isNearest⟩

/-! ## Rounded decimals -/

/-- A number has a sign and is nearest to a magnitude. The magnitudes go on beyond the largest
finite one; if one of those beyond is nearest, the number is infinite. -/
inductive IsRounded (negative : Bool) (magnitude : ℚ) : Binary64 → Prop
  | finite {rank : Fin rankBound} :
      IsNearest rank (unitsOfOne * magnitude) → IsRounded negative magnitude (.finite negative rank)
  | infinite {rank : Nat} :
      rankBound ≤ rank → IsNearest rank (unitsOfOne * magnitude) →
      IsRounded negative magnitude (.infinite negative)

/-- A decimal is read as the number nearest to it. -/
theorem isRounded_ofDecimal (negative : Bool) (coefficient : Nat) (exponent : ℤ) :
    IsRounded negative (coefficient * 10 ^ exponent) (ofDecimal negative coefficient exponent) := by
  obtain ⟨rank, hrounds, hnumber⟩ := exists_ofDecimal_eq_ofRank negative coefficient exponent
  rw [hnumber, ofRank]
  split
  · exact .finite hrounds.isNearest
  · next hlarge => exact .infinite (not_lt.1 hlarge) hrounds.isNearest

/-- There is only one number nearest to a magnitude. -/
theorem IsRounded.unique {negative : Bool} {magnitude : ℚ} {x y : Binary64}
    (hx : IsRounded negative magnitude x) (hy : IsRounded negative magnitude y)
    (hmagnitude : 0 ≤ magnitude) : x = y := by
  have hcount : 0 ≤ unitsOfOne * magnitude := mul_nonneg (Nat.cast_nonneg _) hmagnitude
  cases hx with
  | @finite rank hrank =>
    cases hy with
    | @finite other hother =>
      obtain rfl : rank = other :=
        Fin.ext ((hrank.roundsTo hcount).unique (hother.roundsTo hcount))
      rfl
    | infinite hlarge hother =>
      have hsame := (hrank.roundsTo hcount).unique (hother.roundsTo hcount)
      exact absurd rank.2 (not_lt.2 (hsame ▸ hlarge))
  | infinite hlarge hrank =>
    cases hy with
    | @finite other hother =>
      have hsame := (hrank.roundsTo hcount).unique (hother.roundsTo hcount)
      exact absurd other.2 (not_lt.2 (hsame ▸ hlarge))
    | infinite => rfl

end Binary64

end LiveValue
