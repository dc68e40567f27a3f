import LiveValue.Proofs.Integers

/-!
# Shortest decimals

The decimal that a magnitude is shown as reads back as that magnitude. Seventeen digits always
suffice for that, since the decimals with so many digits lie closer together than the magnitudes
do. An integral magnitude needs no digits behind the point.

* `Binary64.units_succ`: the step from one magnitude to the next;
* `Binary64.exists_neighbour`: seventeen digits suffice;
* `Binary64.shortest_reads_back`: the shortest decimal reads back;
* `Binary64.shortest_exponent_nonneg`: the shortest decimal of an integral magnitude is integral.
-/

namespace LiveValue

/-- The first of the numbers below a bound for which there is something. -/
theorem findSome?_range_eq_some {α : Type} {f : Nat → Option α} {n : Nat} {a : α}
    (h : (List.range n).findSome? f = some a) :
    ∃ i, i < n ∧ f i = some a ∧ ∀ j, j < i → f j = none := by
  induction n with
  | zero => cases h
  | succ n ih =>
    rw [List.range_succ, List.findSome?_append] at h
    cases hbefore : (List.range n).findSome? f with
    | some b =>
      rw [hbefore] at h
      obtain rfl : b = a := Option.some.inj h
      obtain ⟨i, hi, hfound⟩ := ih hbefore
      exact ⟨i, Nat.lt_succ_of_lt hi, hfound⟩
    | none =>
      rw [hbefore] at h
      have hnone := List.findSome?_eq_none_iff.1 hbefore
      refine ⟨n, Nat.lt_succ_self n, by simpa using h, fun j hj => ?_⟩
      exact hnone j (List.mem_range.2 hj)

theorem ten_pow_pos (n : Nat) : 0 < Nat.pow 10 n := Nat.pow_pos (by decide)

theorem ten_pow_add {a b c : Nat} (h : a = b + c) : Nat.pow 10 a = 10 ^ b * 10 ^ c := by
  rw [h]
  exact pow_add 10 b c

/-! ## Decimals -/

namespace Decimal

def rational (d : Decimal) : ℚ := d.coefficient * 10 ^ d.exponent

theorem length_digits_le_iff {n k : Nat} (hk : 0 < k) : (digits n).length ≤ k ↔ n < 10 ^ k :=
  Nat.length_toDigits_le_iff (by decide) hk

theorem length_digits_pos (n : Nat) : 0 < (digits n).length := Nat.length_toDigits_pos

theorem pow_length_digits_le {n : Nat} (h : n ≠ 0) : 10 ^ ((digits n).length - 1) ≤ n := by
  rcases Nat.eq_zero_or_pos ((digits n).length - 1) with hone | hmore
  · rw [hone]
    omega
  · by_contra hlt
    have hshorter := (length_digits_le_iff hmore).2 (not_le.1 hlt)
    omega

theorem length_digits_mul_pow {n : Nat} (h : n ≠ 0) (k : Nat) :
    (digits (n * 10 ^ k)).length = (digits n).length + k := by
  induction k with
  | zero => simp
  | succ k ih =>
    have hdigits : digits (n * 10 ^ k) ++ digits 0 = digits (10 * (n * 10 ^ k) + 0) :=
      Nat.toDigits_append_toDigits (by decide) (by positivity) (by decide)
    have hshift : n * 10 ^ (k + 1) = 10 * (n * 10 ^ k) + 0 := by ring
    rw [hshift, ← hdigits, List.length_append, ih]
    rfl

variable {d : Decimal} {fuel : Nat}

/-- Trailing zeros are moved, the number stays. -/
theorem rational_trim : (trim fuel d).rational = d.rational := by
  induction fuel generalizing d with
  | zero => rfl
  | succ fuel ih =>
    rw [trim]
    split
    · next hzero =>
      obtain ⟨k, hk⟩ := Nat.dvd_of_mod_eq_zero hzero.2
      rw [ih, rational, rational, hk, Nat.mul_div_cancel_left k (by decide),
        zpow_add_one₀ (by norm_num)]
      push_cast
      ring
    · rfl

theorem coefficient_trim_ne_zero (h : d.coefficient ≠ 0) : (trim fuel d).coefficient ≠ 0 := by
  induction fuel generalizing d with
  | zero => exact h
  | succ fuel ih =>
    rw [trim]
    split
    · next hzero => exact ih (by simp; omega)
    · exact h

theorem exponent_le_trim : d.exponent ≤ (trim fuel d).exponent := by
  induction fuel generalizing d with
  | zero => exact le_rfl
  | succ fuel ih =>
    rw [trim]
    split
    · have hnext := ih (d := ⟨d.coefficient / 10, d.exponent + 1⟩)
      simp at hnext
      omega
    · exact le_rfl

end Decimal

namespace Binary64

/-! ## Magnitudes -/

/-- From one magnitude to the next it is one step of the significand. -/
theorem units_succ (rank : Nat) : units (rank + 1) = units rank + 2 ^ scale rank := by
  have hpow : Nat.pow 2 52 = 2 ^ 52 := rfl
  obtain ⟨q, hq⟩ : ∃ q, q = rank / 2 ^ 52 := ⟨_, rfl⟩
  have hrank := Nat.div_add_mod rank (2 ^ 52)
  have hmod := Nat.mod_lt rank (show 0 < 2 ^ 52 by decide)
  by_cases hcarry : rank % 2 ^ 52 + 1 = 2 ^ 52
  · -- the significand is full, and the next one is worth twice as much
    have hnext : (rank + 1) / 2 ^ 52 = q + 1 := by omega
    unfold units significand scale
    rw [hpow, hnext, ← hq, Nat.add_sub_cancel]
    cases q with
    | zero => simp
    | succ q =>
      have hfull : rank - (q + 1 - 1) * 2 ^ 52 = 2 ^ 53 - 1 := by omega
      have hempty : rank + 1 - (q + 1) * 2 ^ 52 = 2 ^ 52 := by omega
      have htwo : 2 ^ (q + 1) = 2 * 2 ^ q := pow_succ' 2 q
      change (rank + 1 - (q + 1) * 2 ^ 52) * 2 ^ (q + 1)
        = (rank - (q + 1 - 1) * 2 ^ 52) * 2 ^ q + 2 ^ q
      rw [hfull, hempty, htwo]
      ring
  · have hnext : (rank + 1) / 2 ^ 52 = q := by omega
    unfold units significand scale
    rw [hpow, hnext, ← hq]
    have hstep : rank + 1 - (q - 1) * 2 ^ 52 = rank - (q - 1) * 2 ^ 52 + 1 := by omega
    change _ * 2 ^ (q - 1) = _ * 2 ^ (q - 1) + _
    rw [hstep]
    ring

theorem significand_lt (rank : Nat) : significand rank < 2 ^ 53 := by
  have hpow : Nat.pow 2 52 = 2 ^ 52 := rfl
  unfold significand scale
  rw [hpow]
  omega

theorem units_lt_succ (rank : Nat) : units rank < units (rank + 1) := by
  have hpos : 0 < 2 ^ scale rank := by positivity
  rw [units_succ]
  omega

/-- The next magnitude lies further away than a small part of the magnitude. -/
theorem units_lt_gap_above (rank : Nat) :
    units rank < 2 ^ 53 * (units (rank + 1) - units rank) := by
  rw [units_succ, Nat.add_sub_cancel_left]
  exact Nat.mul_lt_mul_of_pos_right (significand_lt rank) (Nat.two_pow_pos _)

theorem units_le_gap_below (rank : Nat) :
    units (rank + 1) ≤ 2 ^ 53 * (units (rank + 1) - units rank) := by
  rw [units_succ, Nat.add_sub_cancel_left]
  have hsignificand := significand_lt rank
  calc units rank + 2 ^ scale rank = (significand rank + 1) * 2 ^ scale rank := by
        change significand rank * 2 ^ scale rank + _ = _
        ring
    _ ≤ 2 ^ 53 * 2 ^ scale rank := Nat.mul_le_mul_right _ (by omega)

theorem units_pos {rank : Nat} (h : rank ≠ 0) : 0 < units rank := by
  obtain ⟨r, rfl⟩ := Nat.exists_eq_succ_of_ne_zero h
  exact Nat.zero_lt_of_lt (units_lt_succ r)

theorem unitsOfOne_pos : 0 < unitsOfOne := by
  unfold unitsOfOne
  generalize 1074 = n
  exact Nat.two_pow_pos n

/-! ## Reading back -/

/-- A point strictly between the two ends reads back, whatever the significand is. -/
theorem readsBack_of_lt {rank point : Nat} (hlow : lowerEnd rank < point)
    (hhigh : point < upperEnd rank) : readsBack rank point = true := by
  unfold readsBack
  split
  · simp [hlow.le, hhigh.le]
  · simp [hlow, hhigh]

theorem between_of_readsBack {rank point : Nat} (h : readsBack rank point = true) :
    lowerEnd rank ≤ point ∧ point ≤ upperEnd rank := by
  unfold readsBack at h
  split at h
  · simpa using h
  · simp only [Bool.and_eq_true, decide_eq_true_eq] at h
    exact ⟨h.1.le, h.2.le⟩

/-- How far the lower end lies below the magnitude, on the scale of the decimals. -/
def roomBelow (rank : Nat) : Nat := (units rank - units (rank - 1)) * Nat.pow 10 gridPower

/-- How far the upper end lies above the magnitude, on the scale of the decimals. -/
def roomAbove (rank : Nat) : Nat := (units (rank + 1) - units rank) * Nat.pow 10 gridPower

theorem roomBelow_pos {rank : Nat} (h : rank ≠ 0) : 0 < roomBelow rank := by
  obtain ⟨r, rfl⟩ := Nat.exists_eq_succ_of_ne_zero h
  exact Nat.mul_pos (Nat.sub_pos_of_lt (units_lt_succ r)) (ten_pow_pos _)

theorem roomAbove_pos (rank : Nat) : 0 < roomAbove rank :=
  Nat.mul_pos (Nat.sub_pos_of_lt (units_lt_succ rank)) (ten_pow_pos _)

theorem doubled_eq_lowerEnd_add {rank : Nat} (h : rank ≠ 0) :
    doubled rank = lowerEnd rank + roomBelow rank := by
  obtain ⟨r, rfl⟩ := Nat.exists_eq_succ_of_ne_zero h
  have hlt := units_lt_succ r
  simp only [doubled, lowerEnd, roomBelow, Nat.succ_eq_add_one, Nat.add_sub_cancel]
  rw [← Nat.add_mul]
  congr 1
  omega

theorem upperEnd_eq_doubled_add (rank : Nat) : upperEnd rank = doubled rank + roomAbove rank := by
  have hlt := units_lt_succ rank
  simp only [doubled, upperEnd, roomAbove]
  rw [← Nat.add_mul]
  congr 1
  omega

theorem readsBack_doubled {rank : Nat} (h : rank ≠ 0) : readsBack rank (doubled rank) = true := by
  have hlow := doubled_eq_lowerEnd_add h
  have hhigh := upperEnd_eq_doubled_add rank
  have hbelow := roomBelow_pos h
  have habove := roomAbove_pos rank
  exact readsBack_of_lt (by omega) (by omega)

theorem not_readsBack_zero {rank : Nat} (h : rank ≠ 0) : readsBack rank 0 = false := by
  have hpos : 0 < lowerEnd rank :=
    Nat.mul_pos (Nat.add_pos_right _ (units_pos h)) (ten_pow_pos _)
  by_contra hzero
  have hbetween := between_of_readsBack (Bool.eq_true_of_not_eq_false hzero)
  omega

/-! ## Neighbours -/

theorem spacing_pos (rank count : Nat) : 0 < spacing rank count :=
  Nat.mul_pos (Nat.mul_pos (by decide) unitsOfOne_pos) (ten_pow_pos _)

/-- The nearer neighbour is not further away than half of the spacing. -/
theorem nearest_close (point : Nat) {step : Nat} (hstep : 0 < step) :
    let nearest := if step < 2 * (point % step) ∨ (2 * (point % step) = step ∧ point / step % 2 = 1)
      then point / step + 1 else point / step
    2 * (nearest * step) ≤ 2 * point + step ∧ 2 * point ≤ 2 * (nearest * step) + step := by
  intro nearest
  have hpoint := Nat.div_add_mod' point step
  have hnext : (point / step + 1) * step = point / step * step + step := by ring
  have hmod := Nat.mod_lt point hstep
  by_cases hup : step < 2 * (point % step) ∨ (2 * (point % step) = step ∧ point / step % 2 = 1)
  · have hnearest : nearest = point / step + 1 := if_pos hup
    rw [hnearest, hnext]
    omega
  · have hnearest : nearest = point / step := if_neg hup
    rw [hnearest]
    omega

theorem of_ite_eq_some {α : Type} {p q : Bool} {a b c : α}
    (h : (if p then some a else if q then some b else none) = some c) :
    p = true ∧ a = c ∨ q = true ∧ b = c := by
  cases p with
  | true => exact .inl ⟨rfl, Option.some.inj h⟩
  | false =>
    cases q with
    | true => exact .inr ⟨rfl, Option.some.inj h⟩
    | false => cases h

/-- One of two candidates, if it reads back. -/
theorem neighbour?_eq (rank count : Nat) : ∃ nearest other,
    neighbour? rank count =
      if readsBack rank (nearest * spacing rank count) then
        some ⟨nearest, (places rank : Int) - 324 - count⟩
      else if readsBack rank (other * spacing rank count) then
        some ⟨other, (places rank : Int) - 324 - count⟩
      else none :=
  ⟨_, _, rfl⟩

/-- A decimal that is found reads back, and it has as many places as were asked for. -/
theorem of_neighbour?_eq_some {rank count : Nat} {d : Decimal}
    (h : neighbour? rank count = some d) :
    d.exponent = (places rank : Int) - 324 - count ∧
      readsBack rank (d.coefficient * spacing rank count) = true := by
  obtain ⟨nearest, other, heq⟩ := neighbour?_eq rank count
  rw [heq] at h
  rcases of_ite_eq_some h with ⟨hback, rfl⟩ | ⟨hback, rfl⟩
  · exact ⟨rfl, hback⟩
  · exact ⟨rfl, hback⟩

theorem neighbour?_of_nearest {rank count : Nat}
    (h : ∀ nearest, 2 * (nearest * spacing rank count) ≤ 2 * doubled rank + spacing rank count →
      2 * doubled rank ≤ 2 * (nearest * spacing rank count) + spacing rank count →
      readsBack rank (nearest * spacing rank count) = true) :
    ∃ d, neighbour? rank count = some d := by
  obtain ⟨hbelow, habove⟩ := nearest_close (doubled rank) (spacing_pos rank count)
  simp only [neighbour?]
  rw [if_pos (h _ hbelow habove)]
  exact ⟨_, rfl⟩

theorem places_pos (rank : Nat) : 0 < places rank := Decimal.length_digits_pos _

/-- The magnitude has as many digits as it has places. -/
theorem unitsOfOne_mul_pow_places_le {rank : Nat} (h : rank ≠ 0) :
    unitsOfOne * 10 ^ (places rank - 1) ≤ units rank * 10 ^ 324 := by
  have hone : unitsOfOne ≤ units rank * 10 ^ 324 :=
    calc unitsOfOne ≤ 1 * 10 ^ 324 := by decide +kernel
      _ ≤ units rank * 10 ^ 324 := Nat.mul_le_mul_right _ (units_pos h)
  unfold places
  -- the power is large, and its digits do not matter
  generalize 324 = k at hone ⊢
  generalize hm : units rank * Nat.pow 10 k / unitsOfOne = m
  have hdiv : unitsOfOne * m ≤ units rank * 10 ^ k := by
    rw [← hm]
    exact Nat.mul_div_le _ _
  have hpos : m ≠ 0 := by
    rw [← hm]
    exact (Nat.div_pos hone unitsOfOne_pos).ne'
  exact (Nat.mul_le_mul_left _ (Decimal.pow_length_digits_le hpos)).trans hdiv

/-- The decimals with seventeen digits lie closer together than the magnitudes. -/
theorem spacing_seventeen_lt {rank gap : Nat} (h : rank ≠ 0) (hgap : units rank ≤ 2 ^ 53 * gap)
    (hpos : 0 < gap) : spacing rank 17 < 2 * (gap * Nat.pow 10 gridPower) := by
  have hplaces := places_pos rank
  have hexponent : places rank + 16 - 17 = places rank - 1 := by omega
  have hpow : (0 : Nat) < 10 ^ 324 := by positivity
  calc spacing rank 17 = 2 * (unitsOfOne * 10 ^ (places rank - 1)) := by
        rw [spacing, hexponent, Nat.pow_eq]
        exact Nat.mul_assoc 2 _ _
    _ ≤ 2 * (units rank * 10 ^ 324) := Nat.mul_le_mul_left 2 (unitsOfOne_mul_pow_places_le h)
    _ ≤ 2 * (2 ^ 53 * gap * 10 ^ 324) := Nat.mul_le_mul_left 2 (Nat.mul_le_mul_right _ hgap)
    _ < 2 * (10 ^ 16 * gap * 10 ^ 324) := by
        refine Nat.mul_lt_mul_of_pos_left (Nat.mul_lt_mul_of_pos_right ?_ hpow) (by decide)
        exact Nat.mul_lt_mul_of_pos_right (by norm_num) hpos
    _ = 2 * (gap * Nat.pow 10 gridPower) := by
        have hgrid : gridPower = 16 + 324 := rfl
        rw [ten_pow_add hgrid, Nat.mul_comm (10 ^ 16) gap, Nat.mul_assoc gap]

theorem spacing_lt_roomBelow {rank : Nat} (h : rank ≠ 0) :
    spacing rank 17 < 2 * roomBelow rank := by
  obtain ⟨r, rfl⟩ := Nat.exists_eq_succ_of_ne_zero h
  exact spacing_seventeen_lt h (units_le_gap_below r) (Nat.sub_pos_of_lt (units_lt_succ r))

theorem spacing_lt_roomAbove {rank : Nat} (h : rank ≠ 0) :
    spacing rank 17 < 2 * roomAbove rank :=
  spacing_seventeen_lt h (units_lt_gap_above rank).le (Nat.sub_pos_of_lt (units_lt_succ rank))

/-- Seventeen digits always suffice. -/
theorem exists_neighbour {rank : Nat} (h : rank ≠ 0) : ∃ d, neighbour? rank 17 = some d := by
  refine neighbour?_of_nearest fun nearest hbelow habove => ?_
  have hlow := spacing_lt_roomBelow h
  have hhigh := spacing_lt_roomAbove h
  have hlowerEnd := doubled_eq_lowerEnd_add h
  have hupperEnd := upperEnd_eq_doubled_add rank
  exact readsBack_of_lt (by omega) (by omega)

/-! ## The shortest decimal -/

/-- The shortest decimal is found with the first count of digits for which there is one. -/
theorem shortest_eq {rank : Nat} (h : rank ≠ 0) :
    ∃ count d, 0 < count ∧ count ≤ 17 ∧ neighbour? rank count = some d ∧
      (∀ fewer, 0 < fewer → fewer < count → neighbour? rank fewer = none) ∧
      shortest rank = d.trim 17 := by
  unfold shortest
  rw [if_neg h]
  cases hfound : (List.range 17).findSome? fun i => neighbour? rank (i + 1) with
  | none =>
    obtain ⟨d, hd⟩ := exists_neighbour h
    have hnone := List.findSome?_eq_none_iff.1 hfound 16 (by decide)
    rw [hd] at hnone
    cases hnone
  | some d =>
    obtain ⟨i, hi, hd, hfirst⟩ := findSome?_range_eq_some hfound
    refine ⟨i + 1, d, by omega, by omega, hd, fun fewer hpos hfewer => ?_, rfl⟩
    have hearlier := hfirst (fewer - 1) (by omega)
    rwa [Nat.sub_add_cancel hpos] at hearlier

theorem coefficient_of_neighbour?_ne_zero {rank count : Nat} {d : Decimal} (h : rank ≠ 0)
    (hd : neighbour? rank count = some d) : d.coefficient ≠ 0 := by
  intro hzero
  obtain ⟨-, hback⟩ := of_neighbour?_eq_some hd
  rw [hzero, Nat.zero_mul, not_readsBack_zero h] at hback
  cases hback

theorem coefficient_shortest_ne_zero {rank : Nat} (h : rank ≠ 0) :
    (shortest rank).coefficient ≠ 0 := by
  obtain ⟨count, d, -, -, hd, -, hshortest⟩ := shortest_eq h
  rw [hshortest]
  exact Decimal.coefficient_trim_ne_zero (coefficient_of_neighbour?_ne_zero h hd)

/-- On the scale of the decimals, a candidate is where its number is. -/
theorem cast_mul_spacing {rank count : Nat} {d : Decimal} (hcount : count ≤ 17)
    (hd : d.exponent = (places rank : Int) - 324 - count) :
    ((d.coefficient * spacing rank count : Nat) : ℚ)
      = 2 * unitsOfOne * Nat.pow 10 gridPower * d.rational := by
  have hplaces := places_pos rank
  have hpower : (10 : ℚ) ^ (places rank + 16 - count)
      = (Nat.pow 10 gridPower : Nat) * 10 ^ d.exponent := by
    have hsum : ((places rank + 16 - count : Nat) : ℤ) = (gridPower : ℤ) + d.exponent := by
      rw [hd]
      change ((places rank + 16 - count : Nat) : ℤ) = (340 : Nat) + _
      omega
    rw [← zpow_natCast, hsum, zpow_add₀ (by norm_num), zpow_natCast, Nat.pow_eq]
    push_cast
    rfl
  rw [spacing, Decimal.rational, Nat.pow_eq]
  push_cast
  rw [hpower]
  ring

/-- The shortest decimal lies between the points halfway to the neighbouring magnitudes. -/
theorem shortest_reads_back {rank : Nat} (h : rank ≠ 0) :
    (lowerEnd rank : ℚ) ≤ 2 * unitsOfOne * Nat.pow 10 gridPower * (shortest rank).rational ∧
      2 * unitsOfOne * Nat.pow 10 gridPower * (shortest rank).rational ≤ (upperEnd rank : ℚ) := by
  obtain ⟨count, d, -, hcount, hd, -, hshortest⟩ := shortest_eq h
  obtain ⟨hexponent, hback⟩ := of_neighbour?_eq_some hd
  obtain ⟨hlow, hhigh⟩ := between_of_readsBack hback
  rw [hshortest, Decimal.rational_trim, ← cast_mul_spacing hcount hexponent]
  exact ⟨by exact_mod_cast hlow, by exact_mod_cast hhigh⟩

/-! ## Integral magnitudes -/

/-- An integral magnitude has as many places before the point as it has digits. -/
theorem places_of_integral {rank n : Nat} (hn : n ≠ 0) (h : units rank = n * unitsOfOne) :
    places rank = (Decimal.digits n).length + 324 := by
  unfold places
  generalize 324 = k
  have hquotient : n * unitsOfOne * Nat.pow 10 k / unitsOfOne = n * 10 ^ k := by
    rw [Nat.mul_right_comm]
    exact Nat.mul_div_cancel _ unitsOfOne_pos
  rw [h, hquotient, Decimal.length_digits_mul_pow hn]

/-- With as many digits as it has, an integral magnitude is its own neighbour. -/
theorem neighbour?_of_integral {rank n : Nat} (hn : n ≠ 0) (h : units rank = n * unitsOfOne) :
    ∃ d, neighbour? rank (Decimal.digits n).length = some d := by
  have hrank : rank ≠ 0 := by
    rintro rfl
    have hzero : units 0 = 0 := rfl
    rw [hzero, eq_comm, Nat.mul_eq_zero] at h
    exact h.elim hn unitsOfOne_pos.ne'
  have hdoubled : doubled rank = n * spacing rank (Decimal.digits n).length := by
    have hexponent : places rank + 16 - (Decimal.digits n).length = gridPower := by
      rw [places_of_integral hn h]
      change _ = 340
      omega
    rw [doubled, spacing, hexponent, h]
    ring
  refine neighbour?_of_nearest fun nearest hbelow habove => ?_
  -- half of the spacing leaves only the magnitude itself
  have hspacing := spacing_pos rank (Decimal.digits n).length
  rw [hdoubled] at hbelow habove
  have hle : nearest ≤ n := by
    by_contra hlt
    have hnext := Nat.mul_le_mul_right (spacing rank (Decimal.digits n).length) (not_le.1 hlt)
    rw [Nat.succ_mul] at hnext
    omega
  have hge : n ≤ nearest := by
    by_contra hlt
    have hnext := Nat.mul_le_mul_right (spacing rank (Decimal.digits n).length) (not_le.1 hlt)
    rw [Nat.succ_mul] at hnext
    omega
  rw [le_antisymm hle hge, ← hdoubled]
  exact readsBack_doubled hrank

/-- The shortest decimal of an integral magnitude has no digits behind the point. -/
theorem shortest_exponent_nonneg {rank : Nat} (h : units rank % unitsOfOne = 0) :
    0 ≤ (shortest rank).exponent := by
  rcases Nat.eq_zero_or_pos rank with rfl | hpos
  · decide
  obtain ⟨n, hn⟩ := Nat.dvd_of_mod_eq_zero h
  rw [Nat.mul_comm] at hn
  have hn0 : n ≠ 0 := by
    rintro rfl
    have hunits := units_pos hpos.ne'
    omega
  obtain ⟨count, d, hcount, -, hd, hfirst, hshortest⟩ := shortest_eq hpos.ne'
  obtain ⟨hexponent, -⟩ := of_neighbour?_eq_some hd
  have hle : count ≤ (Decimal.digits n).length := by
    by_contra hlt
    obtain ⟨d', hd'⟩ := neighbour?_of_integral hn0 hn
    rw [hfirst _ (Decimal.length_digits_pos n) (not_le.1 hlt)] at hd'
    cases hd'
  rw [places_of_integral hn0 hn] at hexponent
  rw [hshortest]
  have htrim : d.exponent ≤ (d.trim 17).exponent := Decimal.exponent_le_trim
  omega

end Binary64

end LiveValue
