import LiveValue.Proofs.Rounding

/-!
# Fewest digits

No decimal that reads back as a magnitude has fewer digits than the shortest one. A decimal with a
given count of digits that lies in the interval of the magnitude is on the grid of the decimals with
so many digits, or below it, and then the least of those lies in the interval too. The search looks
at both neighbours of the magnitude on that grid, and what lies in between is in the interval.

* `Binary64.RoundsTo.between`: what lies between two counts of an interval is in it;
* `Binary64.exists_neighbour_of_roundsTo`: a count of digits that suffices is found;
* `Binary64.length_digits_shortest_le`: the shortest decimal has the fewest digits;
* `Binary64.isShortest_shortest`: it is read as its number, and none with fewer digits is.
-/

namespace LiveValue

/-! ## Trailing zeros -/

namespace Decimal

variable {d : Decimal} {fuel count : Nat}

/-- Zeros behind a coefficient count like places of the exponent. -/
theorem rational_mul_pow (coefficient more : Nat) (exponent : Int) :
    (⟨coefficient * 10 ^ more, exponent⟩ : Decimal).rational
      = (⟨coefficient, exponent + more⟩ : Decimal).rational := by
  rw [rational, rational, zpow_add₀ (by norm_num), zpow_natCast]
  push_cast
  ring

theorem coefficient_trim_le (fuel : Nat) (d : Decimal) :
    (trim fuel d).coefficient ≤ d.coefficient := by
  induction fuel generalizing d with
  | zero => exact le_rfl
  | succ fuel ih =>
    rw [trim]
    split
    · exact (ih _).trans (Nat.div_le_self _ _)
    · exact le_rfl

/-- A power of ten loses its zeros. -/
theorem coefficient_trim_lt (hcount : 0 < count) (h : d.coefficient ≤ 10 ^ count) :
    (trim (fuel + 1) d).coefficient < 10 ^ count := by
  obtain ⟨more, rfl⟩ := Nat.exists_eq_succ_of_ne_zero hcount.ne'
  have hpos : 0 < 10 ^ more := Nat.pow_pos (by decide)
  have hpow : 10 ^ (more + 1) = 10 * 10 ^ more := pow_succ' 10 more
  rw [Nat.succ_eq_add_one, hpow] at h ⊢
  rw [trim]
  split
  · have hle := coefficient_trim_le fuel ⟨d.coefficient / 10, d.exponent + 1⟩
    dsimp only at hle
    omega
  · next hkept => omega

end Decimal

namespace Binary64

/-! ## Between two counts -/

/-- What lies between two counts of an interval is in it. -/
theorem RoundsTo.between {rank : Nat} {low count high : ℚ} (hlow : RoundsTo rank low)
    (hhigh : RoundsTo rank high) (h : low ≤ count) (h' : count ≤ high) : RoundsTo rank count := by
  have hfirst := hlow.low
  have hlast := hhigh.high
  refine ⟨by linarith, by linarith, fun heq => hlow.even_of_low ?_, fun heq =>
    hhigh.even_of_high ?_⟩
  · linarith
  · linarith

theorem roundsTo_units {rank : Nat} (h : rank ≠ 0) : RoundsTo rank (units rank) := by
  have hgrid : (0 : ℚ) < (Nat.pow 10 gridPower : Nat) := by exact_mod_cast ten_pow_pos gridPower
  have hquotient : (doubled rank : ℚ) / (2 * Nat.pow 10 gridPower : Nat) = units rank := by
    rw [doubled, Nat.cast_mul, Nat.cast_mul, Nat.cast_mul, Nat.cast_ofNat,
      div_eq_iff (mul_pos two_pos hgrid).ne']
    ring
  rw [← hquotient, ← readsBack_iff]
  exact readsBack_doubled h

theorem readsBack_between {rank low point high : Nat} (hlow : readsBack rank low = true)
    (hhigh : readsBack rank high = true) (h : low ≤ point) (h' : point ≤ high) :
    readsBack rank point = true := by
  have hpos : (0 : ℚ) ≤ (2 * Nat.pow 10 gridPower : Nat) := Nat.cast_nonneg _
  rw [readsBack_iff] at hlow hhigh ⊢
  exact hlow.between hhigh (div_le_div_of_nonneg_right (by exact_mod_cast h) hpos)
    (div_le_div_of_nonneg_right (by exact_mod_cast h') hpos)

/-! ## The search -/

/-- The search looks at the neighbour below the magnitude and at the one above. -/
theorem neighbour?_eq_below_above (rank count : Nat) : ∃ nearest other,
    (nearest = doubled rank / spacing rank count ∧ other = nearest + 1 ∨
      other = doubled rank / spacing rank count ∧ nearest = other + 1) ∧
    neighbour? rank count =
      if readsBack rank (nearest * spacing rank count) then
        some ⟨nearest, (places rank : Int) - 324 - count⟩
      else if readsBack rank (other * spacing rank count) then
        some ⟨other, (places rank : Int) - 324 - count⟩
      else none := by
  refine ⟨_, _, ?_, rfl⟩
  split
  · simp
  · simp

theorem neighbour?_ne_none {rank count : Nat}
    (h : readsBack rank (doubled rank / spacing rank count * spacing rank count) = true ∨
      readsBack rank ((doubled rank / spacing rank count + 1) * spacing rank count) = true) :
    neighbour? rank count ≠ none := by
  obtain ⟨nearest, other, hneighbours, heq⟩ := neighbour?_eq_below_above rank count
  have hback : readsBack rank (nearest * spacing rank count) = true ∨
      readsBack rank (other * spacing rank count) = true := by
    rcases hneighbours with ⟨rfl, rfl⟩ | ⟨rfl, rfl⟩
    · exact h
    · exact h.symm
  rw [heq]
  split
  · nofun
  · next hnearest =>
    rw [if_pos (hback.resolve_left hnearest)]
    nofun

/-- A point of the grid in the interval makes one of the neighbours lie in it. -/
theorem neighbour?_of_grid {rank count point : Nat} (h : rank ≠ 0)
    (hback : readsBack rank (point * spacing rank count) = true) :
    neighbour? rank count ≠ none := by
  have hspacing := spacing_pos rank count
  have hdivision := Nat.div_add_mod' (doubled rank) (spacing rank count)
  have hmod := Nat.mod_lt (doubled rank) hspacing
  refine neighbour?_ne_none ?_
  rcases Nat.lt_or_ge (doubled rank / spacing rank count) point with hlt | hge
  · have hnext := Nat.mul_le_mul_right (spacing rank count) hlt
    rw [Nat.succ_eq_add_one] at hnext
    refine .inr (readsBack_between (readsBack_doubled h) hback ?_ hnext)
    rw [Nat.add_mul]
    omega
  · have hbefore := Nat.mul_le_mul_right (spacing rank count) hge
    exact .inl (readsBack_between hback (readsBack_doubled h) hbefore (by omega))

/-- The magnitude has no more digits than it has places. -/
theorem doubled_lt {rank count : Nat} (hcount : count ≤ 17) :
    doubled rank < 10 ^ count * spacing rank count := by
  have hplaces := places_pos rank
  have hdigits : units rank * 10 ^ 324 < unitsOfOne * 10 ^ places rank := by
    unfold places
    generalize 324 = k
    have hlength := (Decimal.length_digits_le_iff (Decimal.length_digits_pos _)).1
      (le_refl (Decimal.digits (units rank * Nat.pow 10 k / unitsOfOne)).length)
    rw [Nat.mul_comm unitsOfOne]
    exact (Nat.div_lt_iff_lt_mul unitsOfOne_pos).1 hlength
  have hgrid : gridPower = 324 + 16 := rfl
  have hsixteen : (0 : Nat) < 10 ^ 16 := by decide
  generalize 324 = k at hdigits hgrid
  calc doubled rank = 2 * (units rank * 10 ^ k) * 10 ^ 16 := by
        rw [doubled, ten_pow_add hgrid, ← Nat.mul_assoc, Nat.mul_assoc 2]
    _ < 2 * (unitsOfOne * 10 ^ places rank) * 10 ^ 16 :=
        Nat.mul_lt_mul_of_pos_right (Nat.mul_lt_mul_of_pos_left hdigits (by decide)) hsixteen
    _ = 2 * unitsOfOne * 10 ^ (places rank + 16) := by
        rw [pow_add, ← Nat.mul_assoc, Nat.mul_assoc (2 * unitsOfOne)]
    _ = 10 ^ count * spacing rank count := by
        have hsum : places rank + 16 = count + (places rank + 16 - count) := by omega
        rw [spacing, Nat.mul_left_comm, Nat.pow_eq, ← pow_add, ← hsum]

theorem coefficient_of_neighbour?_le {rank count : Nat} {d : Decimal} (hcount : count ≤ 17)
    (h : neighbour? rank count = some d) : d.coefficient ≤ 10 ^ count := by
  have hbelow : doubled rank / spacing rank count < 10 ^ count :=
    (Nat.div_lt_iff_lt_mul (spacing_pos rank count)).2 (doubled_lt hcount)
  obtain ⟨nearest, other, hneighbours, heq⟩ := neighbour?_eq_below_above rank count
  rw [heq] at h
  rcases of_ite_eq_some h with ⟨-, rfl⟩ | ⟨-, rfl⟩
  · dsimp only
    omega
  · dsimp only
    omega

/-- With its trailing zeros gone, a decimal that is found has the digits that were asked for. -/
theorem length_digits_trim_le {rank count : Nat} {d : Decimal} (hpos : 0 < count)
    (hcount : count ≤ 17) (h : neighbour? rank count = some d) :
    (Decimal.digits (d.trim 17).coefficient).length ≤ count :=
  (Decimal.length_digits_le_iff hpos).2
    (Decimal.coefficient_trim_lt hpos (coefficient_of_neighbour?_le hcount h))

/-- Seventeen digits suffice for the shortest decimal. -/
theorem length_digits_shortest_le_seventeen {rank : Nat} (h : rank ≠ 0) :
    (Decimal.digits (shortest rank).coefficient).length ≤ 17 := by
  obtain ⟨count, found, hpos, hcount, hfound, -, hshortest⟩ := shortest_eq h
  rw [hshortest]
  exact (length_digits_trim_le hpos hcount hfound).trans hcount

/-! ## Decimals on the grid -/

/-- The power of ten at the leading digit of a magnitude is not above it. -/
theorem unitsOfOne_mul_zpow_le {rank : Nat} (h : rank ≠ 0) :
    (unitsOfOne : ℚ) * 10 ^ ((places rank : Int) - 325) ≤ units rank := by
  have hplaces := places_pos rank
  have hpower : (10 : ℚ) ^ ((places rank : Int) - 325) = 10 ^ (places rank - 1) / 10 ^ 324 := by
    have hsplit : (places rank : Int) - 325 = ((places rank - 1 : Nat) : ℤ) - (324 : Nat) := by
      omega
    rw [hsplit, zpow_sub₀ (by norm_num), zpow_natCast, zpow_natCast]
  rw [hpower, ← mul_div_assoc, div_le_iff₀ (by positivity)]
  exact_mod_cast unitsOfOne_mul_pow_places_le h

/-- A decimal with a count of digits that is as large as the magnitude is on the grid of that count;
one that is smaller by a place lies below the least decimal of the grid. -/
theorem exists_grid_of_roundsTo {rank : Nat} {d : Decimal} (h : rank ≠ 0)
    (hd : RoundsTo rank (unitsOfOne * d.rational)) :
    ∃ point : Nat, RoundsTo rank (unitsOfOne *
      (⟨point, (places rank : Int) - 324 - (Decimal.digits d.coefficient).length⟩ :
        Decimal).rational) := by
  have hlength := Decimal.length_digits_pos d.coefficient
  rcases Int.lt_or_le d.exponent
      ((places rank : Int) - 324 - (Decimal.digits d.coefficient).length) with hlt | hge
  · -- the least decimal of the grid lies between this one and the magnitude
    refine ⟨1 * 10 ^ ((Decimal.digits d.coefficient).length - 1), ?_⟩
    have hleast : (⟨1, (places rank : Int) - 324 - (Decimal.digits d.coefficient).length
        + ((Decimal.digits d.coefficient).length - 1 : Nat)⟩ : Decimal).rational
        = 10 ^ ((places rank : Int) - 325) := by
      rw [Decimal.rational, Nat.cast_one, one_mul]
      congr 1
      change (places rank : Int) - 324 - (Decimal.digits d.coefficient).length
        + ((Decimal.digits d.coefficient).length - 1 : Nat) = places rank - 325
      omega
    have hone : (0 : ℚ) < unitsOfOne := by exact_mod_cast unitsOfOne_pos
    have hbelow : d.rational ≤ 10 ^ ((places rank : Int) - 325) := by
      refine (Decimal.rational_lt_pow_point d).le.trans (zpow_le_zpow_right₀ (by norm_num) ?_)
      rw [Decimal.point]
      omega
    rw [Decimal.rational_mul_pow, hleast]
    exact hd.between (roundsTo_units h) (mul_le_mul_of_nonneg_left hbelow hone.le)
      (unitsOfOne_mul_zpow_le h)
  · obtain ⟨more, hmore⟩ := Int.le.dest hge
    refine ⟨d.coefficient * 10 ^ more, ?_⟩
    rwa [Decimal.rational_mul_pow, hmore]

/-- A count of digits that suffices is found. -/
theorem exists_neighbour_of_roundsTo {rank : Nat} {d : Decimal} (h : rank ≠ 0)
    (hd : RoundsTo rank (unitsOfOne * d.rational))
    (hcount : (Decimal.digits d.coefficient).length ≤ 17) :
    neighbour? rank (Decimal.digits d.coefficient).length ≠ none := by
  obtain ⟨point, hpoint⟩ := exists_grid_of_roundsTo h hd
  exact neighbour?_of_grid h ((readsBack_mul_spacing_iff hcount rfl).2 hpoint)

/-- No decimal that lies in the interval of a magnitude has fewer digits than the shortest one. -/
theorem length_digits_shortest_le {rank : Nat} {d : Decimal} (h : rank ≠ 0)
    (hd : RoundsTo rank (unitsOfOne * d.rational)) :
    (Decimal.digits (shortest rank).coefficient).length
      ≤ (Decimal.digits d.coefficient).length := by
  obtain ⟨count, found, hpos, hcount, hfound, hfirst, hshortest⟩ := shortest_eq h
  have hfewest : count ≤ (Decimal.digits d.coefficient).length := by
    by_contra hfewer
    have hfew := not_le.1 hfewer
    exact exists_neighbour_of_roundsTo h hd (hfew.le.trans hcount)
      (hfirst _ (Decimal.length_digits_pos _) hfew)
  refine le_trans ?_ hfewest
  rw [hshortest]
  exact length_digits_trim_le hpos hcount hfound

/-- The decimal is read as the number of a sign and a rank, and no decimal with fewer digits is. -/
structure IsShortest (negative : Bool) (rank : Fin rankBound) (d : Decimal) : Prop where
  reads : ofDecimal negative d.coefficient d.exponent = .finite negative rank
  fewest : ∀ other : Decimal,
    ofDecimal negative other.coefficient other.exponent = .finite negative rank →
      (Decimal.digits d.coefficient).length ≤ (Decimal.digits other.coefficient).length

theorem isShortest_shortest (negative : Bool) {rank : Fin rankBound} (h : (rank : Nat) ≠ 0) :
    IsShortest negative rank (shortest rank) where
  reads := ofDecimal_eq_iff.2 (roundsTo_shortest h)
  fewest _ hreads := length_digits_shortest_le h (ofDecimal_eq_iff.1 hreads)

end Binary64

end LiveValue
