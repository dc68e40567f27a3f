import LiveValue.Moment
import Mathlib

/-!
# The calendar

The dates from the first day of year 1 on, one after the other, and the number of days before each.
Counting off whole cycles of years and then whole months leads from that number back to the date.

* `Date.ordinal_next`: the next date has one more day before it;
* `Date.ordinal_lt_ordinal_iff`: an earlier date has fewer days before it;
* `Date.valid_ofOrdinal`, `Date.ordinal_ofOrdinal`: the date with a number of days before it;
* `Date.ofOrdinal_eq_iterate`: it is reached by that many steps from the first date.
-/

namespace LiveValue.Date

variable {year year' : Nat} {d d' : Date}

/-! ## Years -/

theorem daysBeforeYear_eq (year : Nat) :
    daysBeforeYear year
      = 365 * (year - 1) + (year - 1) / 4 - (year - 1) / 100 + (year - 1) / 400 := rfl

def yearLength (year : Nat) : Nat := if isLeap year then 366 else 365

theorem isLeap_iff : isLeap year = true ↔ year % 4 = 0 ∧ (year % 100 ≠ 0 ∨ year % 400 = 0) := by
  simp [isLeap]

/-- A year has a day more if the fourth, but not the hundredth, or the four hundredth is full. -/
theorem daysBeforeYear_succ (h : 1 ≤ year) :
    daysBeforeYear (year + 1) = daysBeforeYear year + yearLength year := by
  obtain ⟨y, rfl⟩ : ∃ y, year = y + 1 := ⟨year - 1, (Nat.sub_add_cancel h).symm⟩
  have hquotients : y / 100 ≤ y / 4 := Nat.div_le_div_left (by decide) (by decide)
  have h4 : (y + 1) % 100 = 0 → (y + 1) % 4 = 0 := by omega
  have h100 : (y + 1) % 400 = 0 → (y + 1) % 100 = 0 := by omega
  rw [daysBeforeYear_eq, daysBeforeYear_eq, Nat.add_sub_cancel, Nat.add_sub_cancel, Nat.succ_div,
    Nat.succ_div, Nat.succ_div]
  simp only [yearLength, isLeap_iff, Nat.dvd_iff_mod_eq_zero]
  -- what is left does not depend on the quotients
  generalize y / 4 = q4, y / 100 = q100, y / 400 = q400 at hquotients ⊢
  split_ifs <;> omega

theorem daysBeforeYear_mono (hyear : 1 ≤ year) (h : year ≤ year') :
    daysBeforeYear year ≤ daysBeforeYear year' := by
  induction h with
  | refl => exact Nat.le_refl _
  | step hle ih => exact ih.trans (daysBeforeYear_succ (hyear.trans hle) ▸ Nat.le_add_right _ _)

/-- A year is over before a later one begins. -/
theorem daysBeforeYear_add_le (hyear : 1 ≤ year) (h : year < year') :
    daysBeforeYear year + yearLength year ≤ daysBeforeYear year' := by
  rw [← daysBeforeYear_succ hyear]
  exact daysBeforeYear_mono (Nat.le_add_left 1 year) h

section Cycles

variable {n400 n100 n4 n1 : Nat}

/-- A year by the whole cycles before it. -/
theorem daysBeforeYear_of_cycles (h100 : n100 ≤ 3) (h4 : n4 ≤ 24) (h1 : n1 ≤ 3) :
    daysBeforeYear (400 * n400 + 100 * n100 + 4 * n4 + n1 + 1)
      = 146097 * n400 + 36524 * n100 + 1461 * n4 + 365 * n1 := by
  rw [daysBeforeYear_eq]
  omega

/-- The last year of four is longer, unless it closes one of the first three centuries. -/
theorem yearLength_of_cycles (h100 : n100 ≤ 3) (h4 : n4 ≤ 24) (h1 : n1 ≤ 3) :
    yearLength (400 * n400 + 100 * n100 + 4 * n4 + n1 + 1)
      = if n1 = 3 ∧ (n4 = 24 → n100 = 3) then 366 else 365 := by
  have hfour : (400 * n400 + 100 * n100 + 4 * n4 + n1 + 1) % 4 = (n1 + 1) % 4 := by omega
  have hhundred : (400 * n400 + 100 * n100 + 4 * n4 + n1 + 1) % 100 = (4 * n4 + n1 + 1) % 100 := by
    omega
  have hall : (400 * n400 + 100 * n100 + 4 * n4 + n1 + 1) % 400
      = (100 * n100 + 4 * n4 + n1 + 1) % 400 := by omega
  simp only [yearLength, isLeap_iff, hfour, hhundred, hall]
  congr 1
  rw [eq_iff_iff]
  omega

end Cycles

/-- The date a number of days into a year. -/
def dateIn (year days : Nat) : Date :=
  let (month, day) := monthAndDay 1 (monthLengths year) days
  ⟨year, month, day⟩

/-- What is left after counting off the cycles is a day of the year that they lead to. -/
theorem exists_year (n : Nat) :
    ∃ year rest, 1 ≤ year ∧ rest < yearLength year ∧ n = daysBeforeYear year + rest ∧
      ofOrdinal n = dateIn year rest := by
  obtain ⟨n100, hn100⟩ : ∃ count, count = min (n % 146097 / 36524) 3 := ⟨_, rfl⟩
  obtain ⟨r100, hr100⟩ : ∃ rest, rest = n % 146097 - n100 * 36524 := ⟨_, rfl⟩
  obtain ⟨n1, hn1⟩ : ∃ count, count = min (r100 % 1461 / 365) 3 := ⟨_, rfl⟩
  have hdate : ofOrdinal n = dateIn (400 * (n / 146097) + 100 * n100 + 4 * (r100 / 1461) + n1 + 1)
      (r100 % 1461 - n1 * 365) := by
    rw [hn1, hr100, hn100]
    rfl
  have hcentury : n % 146097 = n100 * 36524 + r100 ∧ n100 ≤ 3 ∧ r100 ≤ 36524 ∧
      (r100 = 36524 → n100 = 3) := by omega
  have hlast : n1 ≤ 3 ∧ (r100 % 1461 - n1 * 365 < 365 ∨ r100 % 1461 = 1460 ∧ n1 = 3) := by omega
  have hfours : r100 / 1461 ≤ 24 := by omega
  refine ⟨_, _, Nat.le_add_left 1 _, ?_, ?_, hdate⟩
  · rw [yearLength_of_cycles hcentury.2.1 hfours hlast.1]
    clear hdate hn100 hr100 hn1
    split <;> omega
  · rw [daysBeforeYear_of_cycles hcentury.2.1 hfours hlast.1]
    omega

/-! ## Months -/

def monthLength (year month : Nat) : Nat := (monthLengths year).getD (month - 1) 0

theorem monthLength_le {month : Nat} : monthLength year month ≤ 31 := by
  have hall : ∀ length ∈ monthLengths year, length ≤ 31 := by
    simp only [monthLengths, List.forall_mem_cons]
    split <;> simp
  rw [monthLength, List.getD_eq_getElem?_getD]
  cases hfound : (monthLengths year)[month - 1]? with
  | none => simp
  | some length => exact hall length (List.mem_of_getElem? hfound)

theorem monthLength_pos {month : Nat} (h : 1 ≤ month ∧ month ≤ 12) :
    1 ≤ monthLength year month := by
  obtain ⟨hlow, hhigh⟩ := h
  unfold monthLength monthLengths
  interval_cases month <;> simp
  split <;> simp

theorem daysInMonths_eq (count : Nat) (lengths : List Nat) :
    daysInMonths count lengths = (lengths.take count).sum := by
  induction lengths generalizing count with
  | nil => cases count <;> simp [daysInMonths]
  | cons length more ih => cases count <;> simp [daysInMonths, ih]

theorem daysInMonths_succ (count : Nat) (lengths : List Nat) :
    daysInMonths (count + 1) lengths = daysInMonths count lengths + lengths.getD count 0 := by
  rw [daysInMonths_eq, daysInMonths_eq, List.take_add_one, List.sum_append,
    List.getD_eq_getElem?_getD]
  cases lengths[count]? <;> simp

theorem daysInMonths_mono {count count' : Nat} (h : count ≤ count') (lengths : List Nat) :
    daysInMonths count lengths ≤ daysInMonths count' lengths := by
  induction h with
  | refl => exact Nat.le_refl _
  | step _ ih =>
    rw [daysInMonths_succ]
    omega

theorem daysInMonths_twelve (year : Nat) :
    daysInMonths 12 (monthLengths year) = yearLength year := by
  unfold yearLength
  cases h : isLeap year <;> simp [monthLengths, daysInMonths, h]

/-- Going along the months, days lead to the one before which no more days are over. -/
theorem monthAndDay_eq {lengths : List Nat} {days : Nat} (month : Nat) (h : days < lengths.sum) :
    ∃ count rest, monthAndDay month lengths days = (month + count, rest + 1) ∧
      count < lengths.length ∧ rest < lengths.getD count 0 ∧
      days = daysInMonths count lengths + rest := by
  induction lengths generalizing month days with
  | nil => simp at h
  | cons length more ih =>
    rw [monthAndDay]
    split
    · next hfirst => exact ⟨0, days, rfl, by simp, by simpa using hfirst, by simp [daysInMonths]⟩
    · next hlater =>
      rw [List.sum_cons] at h
      have hmore : days - length < more.sum := by omega
      obtain ⟨count, rest, hfound, hcount, hrest, hdays⟩ := ih (month + 1) hmore
      refine ⟨count + 1, rest, ?_, by simpa using hcount, by simpa using hrest, ?_⟩
      · rw [hfound, Nat.add_right_comm, Nat.add_assoc]
      · rw [daysInMonths]
        omega

/-! ## Dates -/

/-- The date is one of the calendar, from year 1 on. -/
structure Valid (d : Date) : Prop where
  year : 1 ≤ d.year
  month : 1 ≤ d.month ∧ d.month ≤ 12
  day : 1 ≤ d.day ∧ d.day ≤ monthLength d.year d.month

instance (d : Date) : Decidable d.Valid :=
  decidable_of_iff (1 ≤ d.year ∧ (1 ≤ d.month ∧ d.month ≤ 12) ∧
    1 ≤ d.day ∧ d.day ≤ monthLength d.year d.month)
    ⟨fun ⟨hyear, hmonth, hday⟩ => ⟨hyear, hmonth, hday⟩, fun h => ⟨h.year, h.month, h.day⟩⟩

theorem eq_iff : d = d' ↔ d.year = d'.year ∧ d.month = d'.month ∧ d.day = d'.day := by
  cases d
  cases d'
  simp

def Before (d d' : Date) : Prop :=
  d.year < d'.year ∨ d.year = d'.year ∧
    (d.month < d'.month ∨ d.month = d'.month ∧ d.day < d'.day)

theorem before_or_eq_or_before (d d' : Date) : d.Before d' ∨ d = d' ∨ d'.Before d := by
  rw [Before, Before, eq_iff]
  omega

/-- The days of a month are over before a later one begins. -/
theorem daysInMonths_add_le (year : Nat) {month month' : Nat} (hmonth : 1 ≤ month)
    (h : month < month') :
    daysInMonths (month - 1) (monthLengths year) + monthLength year month
      ≤ daysInMonths (month' - 1) (monthLengths year) := by
  rw [monthLength, ← daysInMonths_succ]
  exact daysInMonths_mono (by omega) _

theorem ordinal_lt_daysBeforeYear (h : d.Valid) (hlater : d.year < year) :
    d.ordinal < daysBeforeYear year := by
  have hmonths := daysInMonths_add_le d.year h.month.1 (Nat.lt_succ_of_le h.month.2)
  have hyears := daysBeforeYear_add_le h.year hlater
  have htwelve := daysInMonths_twelve d.year
  have hday := h.day
  unfold ordinal
  simp only [Nat.succ_eq_add_one, Nat.add_one_sub_one] at hmonths
  omega

theorem Before.ordinal_lt (h : d.Valid) (h' : d'.Valid) (hbefore : d.Before d') :
    d.ordinal < d'.ordinal := by
  have hday := h.day
  have hday' := h'.day
  rcases hbefore with hyear | ⟨hyear, hmonth | ⟨hmonth, hdays⟩⟩
  · have hordinal := ordinal_lt_daysBeforeYear h hyear
    unfold ordinal at hordinal ⊢
    omega
  · have hmonths := daysInMonths_add_le d.year h.month.1 hmonth
    unfold ordinal
    rw [← hyear]
    omega
  · unfold ordinal
    rw [← hyear, ← hmonth]
    omega

/-- An earlier date has fewer days before it, and only an earlier one. -/
theorem ordinal_lt_ordinal_iff (h : d.Valid) (h' : d'.Valid) :
    d.ordinal < d'.ordinal ↔ d.Before d' := by
  constructor
  · intro hlt
    rcases before_or_eq_or_before d d' with hbefore | rfl | hafter
    · exact hbefore
    · exact absurd hlt (Nat.lt_irrefl _)
    · exact absurd hlt (Nat.lt_asymm (hafter.ordinal_lt h' h))
  · exact fun hbefore => hbefore.ordinal_lt h h'

/-- Different dates have different numbers of days before them. -/
theorem ordinal_eq_ordinal_iff (h : d.Valid) (h' : d'.Valid) :
    d.ordinal = d'.ordinal ↔ d = d' := by
  rcases before_or_eq_or_before d d' with hbefore | rfl | hafter
  · have hlt := hbefore.ordinal_lt h h'
    exact iff_of_false (Nat.ne_of_lt hlt) fun heq => Nat.ne_of_lt hlt (heq ▸ rfl)
  · exact iff_of_true rfl rfl
  · have hlt := hafter.ordinal_lt h' h
    exact iff_of_false (Nat.ne_of_gt hlt) fun heq => Nat.ne_of_gt hlt (heq ▸ rfl)

/-! ## From a number of days to the date -/

theorem valid_ofOrdinal_and_ordinal (n : Nat) :
    (ofOrdinal n).Valid ∧ (ofOrdinal n).ordinal = n := by
  obtain ⟨year, rest, hyear, hrest, hn, hdate⟩ := exists_year n
  have hsum : rest < (monthLengths year).sum := by
    have htwelve := daysInMonths_twelve year
    rw [daysInMonths_eq] at htwelve
    exact htwelve ▸ hrest
  obtain ⟨count, day, hfound, hcount, hday, hdays⟩ := monthAndDay_eq 1 hsum
  have htwelve : (monthLengths year).length = 12 := rfl
  rw [hdate, dateIn, hfound]
  refine ⟨⟨hyear, ⟨by simp, ?_⟩, by simp, ?_⟩, ?_⟩
  · show 1 + count ≤ 12
    omega
  · show day + 1 ≤ monthLength year (1 + count)
    rw [monthLength, Nat.add_sub_cancel_left]
    exact hday
  · unfold ordinal
    simp only [Nat.add_sub_cancel_left, Nat.add_sub_cancel]
    omega

/-- Every number of days leads to a date. -/
theorem valid_ofOrdinal (n : Nat) : (ofOrdinal n).Valid := (valid_ofOrdinal_and_ordinal n).1

/-- This date has that number of days before it. -/
theorem ordinal_ofOrdinal (n : Nat) : (ofOrdinal n).ordinal = n := (valid_ofOrdinal_and_ordinal n).2

theorem year_ofOrdinal_lt_iff (hyear : 1 ≤ year) (n : Nat) :
    (ofOrdinal n).year < year ↔ n < daysBeforeYear year := by
  constructor
  · intro hlt
    rw [← ordinal_ofOrdinal n]
    exact ordinal_lt_daysBeforeYear (valid_ofOrdinal n) hlt
  · intro hlt
    by_contra hge
    have hstart := daysBeforeYear_mono hyear (Nat.le_of_not_lt hge)
    have hordinal := ordinal_ofOrdinal n
    unfold ordinal at hordinal
    omega

/-! ## One date after the other -/

def first : Date := ⟨1, 1, 1⟩

def next (d : Date) : Date :=
  if d.day < monthLength d.year d.month then { d with day := d.day + 1 }
  else if d.month < 12 then ⟨d.year, d.month + 1, 1⟩
  else ⟨d.year + 1, 1, 1⟩

theorem valid_next (h : d.Valid) : d.next.Valid := by
  have hmonth := h.month
  unfold next
  split
  · next hday => exact ⟨h.year, h.month, by simp, hday⟩
  split
  · next hlast =>
    have hnext : 1 ≤ d.month + 1 ∧ d.month + 1 ≤ 12 := by omega
    exact ⟨h.year, hnext, Nat.le_refl 1, monthLength_pos hnext⟩
  · exact ⟨by simp, by simp, Nat.le_refl 1, monthLength_pos (by simp)⟩

/-- The next date has one more day before it. -/
theorem ordinal_next (h : d.Valid) : d.next.ordinal = d.ordinal + 1 := by
  have hday := h.day
  have hmonth := h.month
  have hsucc : daysInMonths d.month (monthLengths d.year)
      = daysInMonths (d.month - 1) (monthLengths d.year) + monthLength d.year d.month := by
    rw [monthLength, ← daysInMonths_succ, Nat.sub_add_cancel hmonth.1]
  unfold next
  split
  · unfold ordinal
    simp only
    omega
  next hlast =>
  split
  · unfold ordinal
    simp only [Nat.add_sub_cancel]
    omega
  · -- the twelfth month is over, and with it the year
    have htwelve : d.month = 12 := by omega
    rw [htwelve] at hday hlast hsucc
    rw [daysInMonths_twelve] at hsucc
    unfold ordinal
    rw [daysBeforeYear_succ h.year, htwelve]
    simp only [Nat.sub_self, daysInMonths]
    omega

/-- A number of days leads to the date that comes that many days after the first one. -/
theorem ofOrdinal_eq_iterate (n : Nat) : ofOrdinal n = next^[n] first := by
  induction n with
  | zero => rfl
  | succ n ih =>
    rw [Function.iterate_succ_apply', ← ih]
    refine (ordinal_eq_ordinal_iff (valid_ofOrdinal _) (valid_next (valid_ofOrdinal n))).1 ?_
    rw [ordinal_next (valid_ofOrdinal n), ordinal_ofOrdinal, ordinal_ofOrdinal]

end LiveValue.Date
