import LiveValue.Proofs.Calendar
import LiveValue.Proofs.FunctionFaults
import LiveValue.Proofs.NumberTexts

/-!
# Timestamps

A timestamp tells the instant of a moment in universal time, down to the millisecond. Since all of
its fields have a fixed number of digits and the larger unit comes first, timestamps are in the
order of time.

* `Timestamp.IsField`: digits of a fixed number, compared like the numbers that they denote;
* `Timestamp.Tells`: the form of a timestamp, and the plain moment that it denotes;
* `Moment.ofInstant`: the plain moment of an instant, which there is between the first and the last
  year (`Moment.hasTimestamp_iff`);
* `Moment.tells_write`, `Moment.write_lt_write_iff`: what is written, and in which order;
* `timestamps_exact_and_ordered`: all of it for any two moments.
-/

namespace LiveValue

/-! ## Fields -/

namespace Timestamp

/-- Texts of the same length are compared by what they start with, and then by the rest. -/
theorem append_lt_append_iff {s s' r r' : List Char} (h : s.length = s'.length) :
    s ++ r < s' ++ r' ↔ s < s' ∨ s = s' ∧ r < r' := by
  induction s generalizing s' with
  | nil =>
    obtain rfl := List.length_eq_zero_iff.1 h.symm
    simp
  | cons c s ih =>
    obtain ⟨c', s', rfl⟩ := List.exists_cons_of_length_eq_add_one h.symm
    have hrest : s.length = s'.length := by simpa using h
    simp only [List.cons_append, List.cons_lt_cons_iff, ih hrest, List.cons.injEq]
    tauto

/-- The number of digits is that of the first one at its place, and of the rest. -/
theorem ofDigits_cons (c : Char) (s : List Char) :
    Decimal.ofDigits (c :: s) = 10 ^ s.length * (c.toNat - '0'.toNat) + Decimal.ofDigits s := by
  rw [← List.singleton_append, Decimal.ofDigits_append]
  simp [Decimal.ofDigits]

theorem zero_le_of_isDigit {c : Char} (h : c.isDigit = true) : '0'.toNat ≤ c.toNat := by
  simp only [Char.isDigit, Bool.and_eq_true, decide_eq_true_eq] at h
  exact h.1

/-- Runs of digits of the same length are in the order of what they denote. -/
theorem lt_iff_ofDigits_lt {s s' : List Char} (h : s.length = s'.length)
    (hs : ∀ c ∈ s, c.isDigit = true) (hs' : ∀ c ∈ s', c.isDigit = true) :
    s < s' ↔ Decimal.ofDigits s < Decimal.ofDigits s' := by
  induction s generalizing s' with
  | nil =>
    obtain rfl := List.length_eq_zero_iff.1 h.symm
    simp
  | cons c s ih =>
    obtain ⟨c', s', rfl⟩ := List.exists_cons_of_length_eq_add_one h.symm
    obtain ⟨hc, hrest⟩ := List.forall_mem_cons.1 hs
    obtain ⟨hc', hrest'⟩ := List.forall_mem_cons.1 hs'
    have hlength : s.length = s'.length := by simpa using h
    have hchar : c < c' ↔ c.toNat < c'.toNat := UInt32.lt_iff_toNat_lt
    -- a larger digit at the first place outweighs all that follows
    have hplace {x y a b : Nat} (hxy : x < y) (ha : a < 10 ^ s.length) :
        10 ^ s.length * x + a < 10 ^ s.length * y + b := by
      have hmul := Nat.mul_le_mul_left (10 ^ s.length) hxy
      rw [Nat.mul_succ] at hmul
      omega
    have hzero := zero_le_of_isDigit hc
    have hzero' := zero_le_of_isDigit hc'
    rw [List.cons_lt_cons_iff, ih hlength hrest hrest', hchar, ofDigits_cons, ofDigits_cons,
      ← hlength]
    rcases Nat.lt_trichotomy c.toNat c'.toNat with hlt | heq | hgt
    · exact iff_of_true (.inl hlt) (hplace (by omega) (Decimal.ofDigits_lt hrest))
    · obtain rfl : c = c' := Char.toNat_inj.1 heq
      simp
    · have hmore := hplace (b := Decimal.ofDigits s) (x := c'.toNat - '0'.toNat)
        (y := c.toNat - '0'.toNat) (by omega) (hlength ▸ Decimal.ofDigits_lt hrest')
      refine iff_of_false ?_ (Nat.lt_asymm hmore)
      rintro (hlt | ⟨rfl, -⟩)
      · exact Nat.lt_asymm hgt hlt
      · exact Nat.lt_irrefl _ hgt

/-- The digits of a field: as many as the field is wide, denoting its number. -/
structure IsField (width n : Nat) (s : List Char) : Prop where
  length : s.length = width
  isDigit : ∀ c ∈ s, c.isDigit = true
  value : Decimal.ofDigits s = n

namespace IsField

variable {width n n' : Nat} {s s' r r' : List Char}

theorem lt_iff (h : IsField width n s) (h' : IsField width n' s') : s < s' ↔ n < n' := by
  rw [lt_iff_ofDigits_lt (h.length.trans h'.length.symm) h.isDigit h'.isDigit, h.value, h'.value]

theorem eq_iff (h : IsField width n s) (h' : IsField width n' s') : s = s' ↔ n = n' := by
  constructor
  · rintro rfl
    exact h.value.symm.trans h'.value
  · rintro rfl
    rcases lt_trichotomy s s' with hlt | heq | hgt
    · exact absurd ((h.lt_iff h').1 hlt) (Nat.lt_irrefl n)
    · exact heq
    · exact absurd ((h'.lt_iff h).1 hgt) (Nat.lt_irrefl n)

/-- Of texts that start with fields of the same width the numbers decide, and then the rest. -/
theorem append_lt_iff (h : IsField width n s) (h' : IsField width n' s') (mark : Char) :
    s ++ mark :: r < s' ++ mark :: r' ↔ n < n' ∨ n = n' ∧ r < r' := by
  rw [append_lt_append_iff (h.length.trans h'.length.symm), h.lt_iff h', h.eq_iff h',
    List.cons_lt_cons_self]

end IsField

theorem isField_padded {width n : Nat} (hwidth : 0 < width) (h : n < 10 ^ width) :
    IsField width n (Moment.padded width n) := by
  have hlength := (Decimal.length_digits_le_iff hwidth).2 h
  refine ⟨?_, fun c hc => ?_, ?_⟩
  · change (List.replicate (width - (Decimal.digits n).length) '0' ++ Decimal.digits n).length = _
    rw [List.length_append, List.length_replicate, Nat.sub_add_cancel hlength]
  · exact ((AreDigits.digits n).zeros_append _).2 c hc
  · exact (Decimal.ofDigits_zeros_append _ _).trans (Decimal.ofDigits_digits n)

/-- The fields of a timestamp with the marks between them: `YYYY-MM-DDTHH:MM:SS.mmmZ`. -/
def marked (y mo d h mi s ms : List Char) : List Char :=
  y ++ '-' :: mo ++ '-' :: d ++ 'T' :: h ++ ':' :: mi ++ ':' :: s ++ '.' :: ms ++ ['Z']

theorem marked_eq (y mo d h mi s ms : List Char) :
    marked y mo d h mi s ms = y ++ '-' :: (mo ++ '-' :: (d ++ 'T' :: (h ++ ':' :: (mi ++ ':' ::
      (s ++ '.' :: (ms ++ ['Z'])))))) := by
  simp [marked]

/-- The text has the form `YYYY-MM-DDTHH:MM:SS.mmmZ`, and its fields are those of a plain moment
that is given down to the millisecond. -/
inductive Tells : List Char → Moment → Prop
  | intro {y mo d h mi s ms : List Char} {date : Date} {hour minute second millisecond : Nat} :
      IsField 4 date.year y → IsField 2 date.month mo → IsField 2 date.day d →
      IsField 2 hour h → IsField 2 minute mi → IsField 2 second s → IsField 3 millisecond ms →
      Tells (marked y mo d h mi s ms) ⟨date, hour, minute, second, millisecond * 1000, none⟩

theorem Tells.length {s : List Char} {u : Moment} (h : Tells s u) : s.length = 24 := by
  cases h with
  | intro hy hmo hd hh hmi hs hms =>
    simp [marked, hy.length, hmo.length, hd.length, hh.length, hmi.length, hs.length, hms.length]

end Timestamp

/-! ## Instants -/

namespace Moment

open Timestamp

variable {m : Moment} {i j : Nat}

/-- The moment has a date of one of the years that there are, and a time of day. Its offset may be
any. -/
structure Valid (m : Moment) : Prop where
  date : m.date.Valid
  year : m.date.year ≤ Date.lastYear
  hour : m.hour < 24
  minute : m.minute < 60
  second : m.second < 60
  microsecond : m.microsecond < 1000000

/-- The plain moment at an instant. -/
def ofInstant (i : Nat) : Moment where
  date := Date.ofOrdinal (i / microsecondsOfDay)
  hour := i % microsecondsOfDay / 3600000000
  minute := i % microsecondsOfDay / 60000000 % 60
  second := i % microsecondsOfDay / 1000000 % 60
  microsecond := i % 1000000
  offset := none

theorem instant_ofInstant (i : Nat) : (ofInstant i).instant = i := by
  simp only [instant, ofInstant, Date.ordinal_ofOrdinal, microsecondsOfDay, Option.map_none,
    Option.getD_none]
  omega

theorem valid_ofInstant (h : i < endOfTime) : (ofInstant i).Valid where
  date := Date.valid_ofOrdinal _
  year := by
    have hdays : i / microsecondsOfDay < Date.daysBeforeYear (Date.lastYear + 1) :=
      Nat.div_lt_of_lt_mul (Nat.mul_comm _ _ ▸ h)
    exact Nat.le_of_lt_succ ((Date.year_ofOrdinal_lt_iff (by decide) _).2 hdays)
  hour := by
    show i % microsecondsOfDay / 3600000000 < 24
    unfold microsecondsOfDay
    omega
  minute := Nat.mod_lt _ (by decide)
  second := Nat.mod_lt _ (by decide)
  microsecond := Nat.mod_lt _ (by decide)

/-- A plain moment lies in the years that have dates. -/
theorem Valid.hasTimestamp (h : m.Valid) (hplain : m.offset = none) : m.HasTimestamp := by
  have hdays := Date.ordinal_lt_daysBeforeYear h.date (Nat.lt_succ_of_le h.year)
  have hhour := h.hour
  have hminute := h.minute
  have hsecond := h.second
  have hmicrosecond := h.microsecond
  unfold HasTimestamp instant endOfTime microsecondsOfDay
  rw [hplain, Option.map_none, Option.getD_none]
  simp only [Nat.succ_eq_add_one] at hdays
  generalize Date.daysBeforeYear (Date.lastYear + 1) = days at hdays ⊢
  omega

/-- An instant that has a timestamp is a number of microseconds before the end. -/
theorem HasTimestamp.toNat (h : m.HasTimestamp) :
    m.instant.toNat < endOfTime ∧ (m.instant.toNat : Int) = m.instant := by
  obtain ⟨hstart, hend⟩ := h
  omega

/-- The instants that have a timestamp are those of plain moments. -/
theorem hasTimestamp_iff :
    m.HasTimestamp ↔ ∃ u : Moment, u.Valid ∧ u.offset = none ∧ u.instant = m.instant := by
  constructor
  · intro h
    obtain ⟨hend, hinstant⟩ := h.toNat
    exact ⟨ofInstant m.instant.toNat, valid_ofInstant hend, rfl,
      by rw [instant_ofInstant, hinstant]⟩
  · rintro ⟨u, hu, hplain, hinstant⟩
    have hbounds := hu.hasTimestamp hplain
    unfold HasTimestamp at hbounds ⊢
    rwa [← hinstant]

theorem timestamp_of_hasTimestamp (h : m.HasTimestamp) :
    m.timestamp = .ok (String.ofList (write m.instant.toNat)) := if_pos h

theorem timestamp_eq_error_iff : m.timestamp = .error .outOfRange ↔ ¬m.HasTimestamp := by
  refine ⟨fun herror => (timestamp_eq_error herror).2, fun hout => ?_⟩
  exact if_neg hout

theorem hasTimestamp_of_ok {text : String} (h : m.timestamp = .ok text) : m.HasTimestamp := by
  by_contra hout
  rw [timestamp_eq_error_iff.2 hout] at h
  cases h

/-! ## What is written -/

/-- The plain moment at the start of a millisecond. -/
def startOfMillisecond (i : Nat) : Moment :=
  let u := ofInstant i
  { u with microsecond := u.microsecond / 1000 * 1000 }

theorem instant_startOfMillisecond (i : Nat) :
    (startOfMillisecond i).instant = i / 1000 * 1000 := by
  have hinstant := instant_ofInstant i
  simp only [instant, startOfMillisecond, ofInstant, Option.map_none, Option.getD_none]
    at hinstant ⊢
  omega

theorem valid_startOfMillisecond (h : i < endOfTime) : (startOfMillisecond i).Valid := by
  have hvalid := valid_ofInstant h
  refine ⟨hvalid.date, hvalid.year, hvalid.hour, hvalid.minute, hvalid.second, ?_⟩
  exact Nat.lt_of_le_of_lt (Nat.div_mul_le_self _ _) hvalid.microsecond

/-- What is written are the fields of the moment at the instant. -/
theorem write_eq (i : Nat) :
    write i = marked (padded 4 (ofInstant i).date.year) (padded 2 (ofInstant i).date.month)
      (padded 2 (ofInstant i).date.day) (padded 2 (ofInstant i).hour)
      (padded 2 (ofInstant i).minute) (padded 2 (ofInstant i).second)
      (padded 3 ((ofInstant i).microsecond / 1000)) := by
  have hdate : Date.ofOrdinal (i / microsecondsOfDay) = (ofInstant i).date := rfl
  have hhour : i % microsecondsOfDay / 1000 / 3600000 = (ofInstant i).hour :=
    Nat.div_div_eq_div_mul _ _ _
  have hminute : i % microsecondsOfDay / 1000 / 60000 % 60 = (ofInstant i).minute := by
    rw [Nat.div_div_eq_div_mul]
    rfl
  have hsecond : i % microsecondsOfDay / 1000 / 1000 % 60 = (ofInstant i).second := by
    rw [Nat.div_div_eq_div_mul]
    rfl
  have hmillisecond :
      i % microsecondsOfDay / 1000 % 1000 = (ofInstant i).microsecond / 1000 := by
    simp only [ofInstant, microsecondsOfDay]
    omega
  rw [marked, ← hdate, ← hhour, ← hminute, ← hsecond, ← hmillisecond]
  rfl

/-- The numbers of a moment have no more digits than their fields. -/
theorem Valid.fits (h : m.Valid) :
    m.date.year < 10 ^ 4 ∧ m.date.month < 10 ^ 2 ∧ m.date.day < 10 ^ 2 ∧ m.hour < 10 ^ 2 ∧
      m.minute < 10 ^ 2 ∧ m.second < 10 ^ 2 ∧ m.microsecond / 1000 < 10 ^ 3 := by
  have hyear := h.year
  have hmonth := h.date.month.2
  have hday := h.date.day.2.trans Date.monthLength_le
  have hhour := h.hour
  have hminute := h.minute
  have hsecond := h.second
  have hmicrosecond := h.microsecond
  unfold Date.lastYear at hyear
  omega

/-- What is written has the form of a timestamp and tells the millisecond. -/
theorem tells_write (h : i < endOfTime) : Tells (write i) (startOfMillisecond i) := by
  obtain ⟨hyear, hmonth, hday, hhour, hminute, hsecond, hmillisecond⟩ := (valid_ofInstant h).fits
  rw [write_eq]
  exact .intro (isField_padded (by decide) hyear) (isField_padded (by decide) hmonth)
    (isField_padded (by decide) hday) (isField_padded (by decide) hhour)
    (isField_padded (by decide) hminute) (isField_padded (by decide) hsecond)
    (isField_padded (by decide) hmillisecond)

/-- The times of day of two instants, compared field by field. -/
theorem time_lt_iff (i j : Nat) :
    ((ofInstant i).hour < (ofInstant j).hour ∨ (ofInstant i).hour = (ofInstant j).hour ∧
      ((ofInstant i).minute < (ofInstant j).minute ∨ (ofInstant i).minute = (ofInstant j).minute ∧
        ((ofInstant i).second < (ofInstant j).second ∨ (ofInstant i).second = (ofInstant j).second ∧
          (ofInstant i).microsecond / 1000 < (ofInstant j).microsecond / 1000))) ↔
      i % microsecondsOfDay / 1000 < j % microsecondsOfDay / 1000 := by
  simp only [ofInstant, microsecondsOfDay]
  omega

/-- What is written is in the order of the milliseconds. -/
theorem write_lt_write_iff (hi : i < endOfTime) (hj : j < endOfTime) :
    write i < write j ↔ i / 1000 < j / 1000 := by
  obtain ⟨hyear, hmonth, hday, hhour, hminute, hsecond, hmillisecond⟩ := (valid_ofInstant hi).fits
  obtain ⟨hyear', hmonth', hday', hhour', hminute', hsecond', hmillisecond'⟩ :=
    (valid_ofInstant hj).fits
  have hbefore := Date.ordinal_lt_ordinal_iff (valid_ofInstant hi).date (valid_ofInstant hj).date
  have hsame := Date.ordinal_eq_ordinal_iff (valid_ofInstant hi).date (valid_ofInstant hj).date
  have hordinal (i : Nat) : (ofInstant i).date.ordinal = i / microsecondsOfDay :=
    Date.ordinal_ofOrdinal _
  have hdays : i / 1000 < j / 1000 ↔ i / microsecondsOfDay < j / microsecondsOfDay ∨
      i / microsecondsOfDay = j / microsecondsOfDay ∧
        i % microsecondsOfDay / 1000 < j % microsecondsOfDay / 1000 := by
    unfold microsecondsOfDay
    omega
  rw [write_eq, write_eq, marked_eq, marked_eq,
    (isField_padded (by decide) hyear).append_lt_iff (isField_padded (by decide) hyear'),
    (isField_padded (by decide) hmonth).append_lt_iff (isField_padded (by decide) hmonth'),
    (isField_padded (by decide) hday).append_lt_iff (isField_padded (by decide) hday'),
    (isField_padded (by decide) hhour).append_lt_iff (isField_padded (by decide) hhour'),
    (isField_padded (by decide) hminute).append_lt_iff (isField_padded (by decide) hminute'),
    (isField_padded (by decide) hsecond).append_lt_iff (isField_padded (by decide) hsecond'),
    (isField_padded (by decide) hmillisecond).append_lt_iff
      (isField_padded (by decide) hmillisecond')]
  simp only [List.lt_irrefl, and_false, or_false]
  rw [hordinal, hordinal, Date.Before] at hbefore
  rw [hordinal, hordinal, Date.eq_iff] at hsame
  rw [time_lt_iff, hdays, hbefore, hsame]
  simp only [and_or_left, or_assoc, and_assoc]

theorem write_le_write_iff (hi : i < endOfTime) (hj : j < endOfTime) :
    write i ≤ write j ↔ i / 1000 ≤ j / 1000 := by
  rw [← not_lt, write_lt_write_iff hj hi, not_lt]

theorem write_eq_write_iff (hi : i < endOfTime) (hj : j < endOfTime) :
    write i = write j ↔ i / 1000 = j / 1000 := by
  rw [le_antisymm_iff, write_le_write_iff hi hj, write_le_write_iff hj hi, ← le_antisymm_iff]

end Moment

open Moment Timestamp

/-- **Timestamps are exact and in the order of time.** A moment has no timestamp exactly if it has
an offset and its instant is that of no plain moment, that is to say, lies outside the years that
have dates. Otherwise the timestamp has the form `YYYY-MM-DDTHH:MM:SS.mmmZ` and tells a date and a
time of day in universal time: those of the instant, cut off below the millisecond. Of two
timestamps the one of the later instant is never the lesser text, and they are equal exactly if both
instants fall into the same millisecond. -/
theorem timestamps_exact_and_ordered {m : Moment} (h : m.Valid) (m' : Moment) :
    (m.timestamp = .error .outOfRange ↔ m.offset.isSome = true ∧
      ∀ u : Moment, u.Valid → u.offset = none → u.instant ≠ m.instant) ∧
    (m.timestamp = .error .outOfRange ∨ ∃ text u, m.timestamp = .ok text ∧ text.length = 24 ∧
      Tells text.toList u ∧ u.Valid ∧ u.instant = m.instant / 1000 * 1000) ∧
    ∀ text text', m.timestamp = .ok text → m'.timestamp = .ok text' →
      (m.instant ≤ m'.instant → text ≤ text') ∧
      (text = text' ↔ m.instant / 1000 = m'.instant / 1000) := by
  refine ⟨?_, ?_, fun text text' htext htext' => ?_⟩
  · rw [timestamp_eq_error_iff, hasTimestamp_iff]
    constructor
    · intro hnone
      refine ⟨?_, fun u hu hplain hinstant => hnone ⟨u, hu, hplain, hinstant⟩⟩
      -- a plain moment would be there itself
      rw [← Option.ne_none_iff_isSome]
      exact fun hplain => hnone ⟨m, h, hplain, rfl⟩
    · rintro ⟨-, hnone⟩ ⟨u, hu, hplain, hinstant⟩
      exact hnone u hu hplain hinstant
  · by_cases hhas : m.HasTimestamp
    · obtain ⟨hend, hinstant⟩ := hhas.toNat
      have htells := tells_write hend
      refine .inr ⟨_, _, timestamp_of_hasTimestamp hhas, ?_, ?_, valid_startOfMillisecond hend, ?_⟩
      · rw [String.length_ofList, htells.length]
      · rwa [String.toList_ofList]
      · rw [instant_startOfMillisecond, hinstant]
    · exact .inl (timestamp_eq_error_iff.2 hhas)
  · have hhas := hasTimestamp_of_ok htext
    have hhas' := hasTimestamp_of_ok htext'
    obtain ⟨hend, hinstant⟩ := hhas.toNat
    obtain ⟨hend', hinstant'⟩ := hhas'.toNat
    obtain rfl : String.ofList (write m.instant.toNat) = text :=
      Except.ok.inj ((timestamp_of_hasTimestamp hhas).symm.trans htext)
    obtain rfl : String.ofList (write m'.instant.toNat) = text' :=
      Except.ok.inj ((timestamp_of_hasTimestamp hhas').symm.trans htext')
    rw [String.le_iff_toList_le, String.toList_ofList, String.toList_ofList,
      write_le_write_iff hend hend', String.ofList_inj, write_eq_write_iff hend hend']
    omega

/-- The end of a leap day, in a place that is behind universal time by five and a half hours and a
microsecond. -/
def leapNight : Moment := ⟨⟨2024, 2, 29⟩, 23, 30, 0, 123999, some ⟨-19800000001⟩⟩

/-- A plain moment half a millisecond later. -/
def marchMorning : Moment := ⟨⟨2024, 3, 1⟩, 5, 0, 0, 124500, none⟩

theorem timestamps_exact_and_ordered_leapNight :
    leapNight.Valid ∧
    leapNight.timestamp = .ok "2024-03-01T05:00:00.124Z" ∧
    marchMorning.timestamp = .ok "2024-03-01T05:00:00.124Z" ∧
    leapNight.instant / 1000 = marchMorning.instant / 1000 := by
  have hnight : leapNight.Valid :=
    ⟨by decide, by decide, by decide, by decide, by decide, by decide⟩
  have htext : leapNight.timestamp = .ok "2024-03-01T05:00:00.124Z" := by cbv
  have htext' : marchMorning.timestamp = .ok "2024-03-01T05:00:00.124Z" := by cbv
  obtain ⟨-, -, hordered⟩ := timestamps_exact_and_ordered hnight marchMorning
  exact ⟨hnight, htext, htext', (hordered _ _ htext htext').2.1 rfl⟩

end LiveValue
