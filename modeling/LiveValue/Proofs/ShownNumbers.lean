import LiveValue.Proofs.JsonReading
import LiveValue.Proofs.PositionalNotation
import LiveValue.Value.Numeric

/-!
# Shown numbers keep their value

The shown text of a number denotes what its exact text denotes, and it is read back as the number.
An integral number below 10^21 is read as an integer, from its shortest digits with zeros behind
them, and rounding takes this integer back to the number; the texts of all other numbers are rounded
right away.

* `Numeral.value_of_roundsTo`: a numeral in the interval of a number is converted to that number;
* `Layout.magnitude_shown_of_isPlain`: the digits of an integral magnitude below 10^21;
* `shown_number_kept`: what is shown of a number other than NaN is read back as the number.
-/

namespace LiveValue

/-! ## Numerals as numbers -/

namespace Numeral

variable {n : Numeral}

/-- The number that a numeral stands for, its sign aside. -/
def magnitude (n : Numeral) : ℚ :=
  Decimal.ofDigits (n.whole ++ n.fraction.getD []) * 10 ^ (n.power - (n.fraction.getD []).length)

theorem rational_eq (n : Numeral) : n.rational = (if n.negative then -1 else 1) * n.magnitude := rfl

/-- An integer in decimal is its digits, with a sign. -/
theorem magnitude_of_integer (hfraction : n.fraction = none) (hexponent : n.exponent = none) :
    n.magnitude = Decimal.ofDigits n.whole := by
  simp [magnitude, power, hfraction, hexponent]

/-- A numeral in the interval of a number is converted to that number, unless it is an integer with
too many digits. -/
theorem value_of_roundsTo {rank : Fin Binary64.rankBound} (h : (rank : Nat) ≠ 0)
    (hrounds : Binary64.RoundsTo rank (Binary64.unitsOfOne * n.magnitude))
    (hlength : n.fraction = none → n.exponent = none → n.whole.length ≤ Number.maxDigits) :
    ∃ a, n.value = .ok a ∧ a.toFloat = .ok (.finite n.negative rank) := by
  by_cases hinteger : n.fraction = none ∧ n.exponent = none
  · obtain ⟨hfraction, hexponent⟩ := hinteger
    have hlimit := not_lt.2 (hlength hfraction hexponent)
    rw [magnitude_of_integer hfraction hexponent] at hrounds
    obtain ⟨i, hi⟩ : ∃ i : Int, i = if n.negative then -(Decimal.ofDigits n.whole : Int)
      else Decimal.ofDigits n.whole := ⟨_, rfl⟩
    have habs : i.natAbs = Decimal.ofDigits n.whole := by
      rw [hi]
      split <;> simp
    have hpos : 0 < Decimal.ofDigits n.whole := by
      refine Nat.pos_of_ne_zero fun hzero => hrounds.ne_zero h ?_
      rw [hzero, Nat.cast_zero, mul_zero]
    have hsign : decide (i < 0) = n.negative := by
      rw [hi]
      cases n.negative with
      | false => simp
      | true => simpa using hpos
    rw [← habs] at hrounds
    refine ⟨.int i, ?_, ?_⟩
    · simp [value, hfraction, hexponent, hlimit, hi]
    · rw [Number.toFloat, Binary64.ofInt?_eq_some h hrounds, hsign]
  · have hrounded : ¬(n.fraction.isNone && n.exponent.isNone) = true := by
      simpa using hinteger
    refine ⟨.float n.nearest, if_neg hrounded, ?_⟩
    exact congrArg Except.ok (Binary64.ofDecimal_eq_iff.2 hrounds)

/-- Nothing around a proper numeral is blank. -/
theorem trim_written (h : n.Proper) : Text.trim n.written = n.written := by
  have hblank {c : Char} (hc : c ∈ n.written) : Text.isBlank c = false := by
    have hkind := Json.isNumberChar_of_mem_written h hc
    simp only [Value.Json.isNumberChar, Bool.or_eq_true, beq_iff_eq] at hkind
    rcases hkind with ((((hdigit | rfl) | rfl) | rfl) | rfl) | rfl
    · exact Text.isBlank_of_isDigit hdigit
    all_goals exact Text.isBlank_of_graphic (by decide) (by decide)
  exact Text.trim_eq_self (fun c hc => hblank (List.mem_of_head? hc))
    fun c hc => hblank (List.mem_of_getLast? hc)

theorem parse_written (h : n.Proper) : Number.parse n.written = n.value.map some := by
  rw [Number.parse, trim_written h]
  simp only [read?_written h]

end Numeral

/-- The text is accepted as a number, and what it counts as is converted to the binary64 number. -/
def IsReadAs (text : List Char) (y : Binary64) : Prop :=
  ∃ a, Number.parse text = .ok (some a) ∧ (Value.str (String.ofList text)).toNumber = .ok a ∧
    a.toFloat = .ok y

theorem IsReadAs.of_parse {text : List Char} {a : Number} {y : Binary64}
    (hparse : Number.parse text = .ok (some a)) (hfloat : a.toFloat = .ok y) : IsReadAs text y := by
  refine ⟨a, hparse, ?_, hfloat⟩
  rw [Value.toNumber, String.toList_ofList, hparse]
  rfl

/-! ## Shown numerals -/

namespace Layout

/-- Without digits behind the point, zeros fill up the digits. -/
theorem magnitude_shown_of_isPlain (width : Nat) {rank : Nat} (h : rank ≠ 0)
    (hplain : Binary64.IsPlain rank) :
    (shown width).magnitude rank = Decimal.digits (Binary64.shortest rank).coefficient ++
      List.replicate (Binary64.shortest rank).exponent.toNat '0' := by
  obtain ⟨hexponent, hplace⟩ := (Binary64.isPlain_iff h).1 hplain
  have hlength := Decimal.length_digits_pos (Binary64.shortest rank).coefficient
  have hpoint : (Binary64.shortest rank).point
      = (Decimal.digits (Binary64.shortest rank).coefficient).length
        + (Binary64.shortest rank).exponent := rfl
  rw [magnitude_shown width h, if_pos (by omega), Decimal.positionalText, if_neg (by omega),
    if_neg (by omega), hpoint, add_sub_cancel_left]

/-- The numeral that is written for a number other than zero, in any layout. -/
theorem exists_numeral (layout : Layout) (negative : Bool) {rank : Fin Binary64.rankBound}
    (h : (rank : Nat) ≠ 0) :
    ∃ n : Numeral, n.Proper ∧ n.negative = negative ∧
      n.written = layout.write (.finite negative rank) ∧
      n.magnitude = (Binary64.shortest rank).rational := by
  have hmagnitude := layout.denotesWith_magnitude rank
  cases negative with
  | false =>
    obtain ⟨n, hproper, hnegative, hwritten, hrational⟩ := hmagnitude
    refine ⟨n, hproper, hnegative, ?_, ?_⟩
    · simp [write, hwritten]
    · simpa [Numeral.rational_eq, hnegative] using hrational
  | true =>
    obtain ⟨n, hproper, hnegative, hwritten, hrational⟩ := hmagnitude.neg
    refine ⟨n, hproper, hnegative, ?_, ?_⟩
    · simp [write, hwritten, h]
    · simpa [Numeral.rational_eq, hnegative] using hrational

/-- The digits of a shown integer are few. -/
theorem length_whole_shown_le (negative : Bool) {rank : Fin Binary64.rankBound}
    (h : (rank : Nat) ≠ 0) {n : Numeral} (hn : n.Proper)
    (hwritten : n.written = display.write (.finite negative rank)) (hfraction : n.fraction = none)
    (hexponent : n.exponent = none) : n.whole.length ≤ Number.maxDigits := by
  have hwhole : isWhole n.written = true := by
    rw [Numeral.written, hfraction, hexponent]
    simp only [Numeral.fractionText, Numeral.exponentText, List.append_nil, isWhole_append,
      isWhole_sign, isWhole_of_digits hn.whole.2, Bool.and_self]
  have hplain : Binary64.IsPlain rank := by
    rw [hwritten, write_display negative h, isWhole_append, Bool.and_eq_true] at hwhole
    exact (isWhole_shown_magnitude_iff 1 rank).1 hwhole.2
  obtain ⟨hnonneg, hplace⟩ := (Binary64.isPlain_iff h).1 hplain
  have hpoint : (Binary64.shortest rank).point
      = (Decimal.digits (Binary64.shortest rank).coefficient).length
        + (Binary64.shortest rank).exponent := rfl
  have htext : (display.magnitude rank).length ≤ 21 := by
    have hmagnitude : display.magnitude rank = _ := magnitude_shown_of_isPlain 1 h hplain
    rw [hmagnitude, List.length_append, List.length_replicate]
    omega
  have hsigned : n.written.length ≤ 22 := by
    rw [hwritten, write_display negative h, List.length_append]
    split
    · rw [List.length_singleton]
      omega
    · rw [List.length_nil]
      omega
  have hpart : n.whole.length ≤ n.written.length := by
    simp only [Numeral.written, List.length_append]
    omega
  have hlimit : Number.maxDigits = 4300 := rfl
  omega

theorem isReadAs_write_infinite (negative : Bool) :
    IsReadAs (display.write (.infinite negative)) (.infinite negative) := by
  cases negative with
  | false => exact .of_parse (a := .float (.infinite false)) rfl rfl
  | true => exact .of_parse (a := .float (.infinite true)) rfl rfl

/-- Zero is read without a sign. -/
theorem isReadAs_write_zero (negative : Bool) (h : 0 < Binary64.rankBound) :
    IsReadAs (display.write (.finite negative ⟨0, h⟩)) (.finite false ⟨0, h⟩) := by
  rw [write_display_zero]
  refine .of_parse (a := .int 0) rfl ?_
  have hzero : Binary64.zero false = .finite false ⟨0, h⟩ := Binary64.ofRank_eq_finite_iff.2 rfl
  rw [Number.toFloat, Binary64.ofInt?, Binary64.ofUnits, if_pos (zero_mul _), hzero]

theorem isReadAs_write (negative : Bool) {rank : Fin Binary64.rankBound} (h : (rank : Nat) ≠ 0) :
    IsReadAs (display.write (.finite negative rank)) (.finite negative rank) := by
  obtain ⟨n, hproper, rfl, hwritten, hmagnitude⟩ := display.exists_numeral negative h
  have hrounds := Binary64.roundsTo_shortest h
  rw [← hmagnitude] at hrounds
  obtain ⟨a, hvalue, hfloat⟩ :=
    n.value_of_roundsTo h hrounds (length_whole_shown_le n.negative h hproper hwritten)
  refine .of_parse ?_ hfloat
  rw [← hwritten, Numeral.parse_written hproper, hvalue]
  rfl

/-- An integral number below 10^21 is shown with digits alone. -/
theorem write_display_of_isPlain (negative : Bool) {rank : Fin Binary64.rankBound}
    (hplain : Binary64.IsPlain rank) :
    ∃ ds, AreDigits ds ∧ (ds.head? = some '0' → (rank : Nat) = 0) ∧
      display.write (.finite negative rank)
        = (if negative ∧ (rank : Nat) ≠ 0 then ['-'] else []) ++ ds := by
  by_cases hzero : (rank : Nat) = 0
  · refine ⟨['0'], .zero, fun _ => hzero, ?_⟩
    obtain ⟨rank, hbound⟩ := rank
    obtain rfl : rank = 0 := hzero
    rw [write_display_zero, if_neg (fun hsign => hsign.2 rfl)]
    rfl
  · have hmagnitude : display.magnitude rank = _ := magnitude_shown_of_isPlain 1 hzero hplain
    refine ⟨display.magnitude rank, ?_, fun hhead => ?_, ?_⟩
    · rw [hmagnitude]
      exact (AreDigits.digits _).append_zeros _
    · rw [hmagnitude, List.head?_append_of_ne_nil _ (Decimal.digits_ne_nil _)] at hhead
      exact absurd hhead
        (Decimal.head?_digits_ne_zero (Binary64.coefficient_shortest_ne_zero hzero))
    · rw [write_display negative hzero]
      simp only [hzero, ne_eq, not_false_eq_true, and_true]

end Layout

/-- **Shown numbers keep their value.** What is shown of a finite number is a numeral of the number
that the exact text denotes; of an integral number below 10^21 it is digits alone behind the sign,
and starts with the digit zero for zero only. What is shown of any number but NaN is accepted as a
number, and what it counts as is equal to the number when it is converted to binary64: it is the
number itself, except that zero has lost its sign. -/
theorem shown_number_kept (x : Binary64) (h : x ≠ .nan) :
    ∃ text, (Value.float x).text = .ok text ∧
      (∀ negative rank, x = .finite negative rank →
        (∃ shown exact, Numeral.read? text = some shown ∧
          Numeral.read? (Layout.exact.write x) = some exact ∧ shown.rational = exact.rational) ∧
        (Binary64.IsPlain rank → ∃ ds, AreDigits ds ∧ (ds.head? = some '0' → (rank : Nat) = 0) ∧
          text = (if negative ∧ (rank : Nat) ≠ 0 then ['-'] else []) ++ ds)) ∧
      ∃ y, IsReadAs text y ∧ (Number.float y).equals (.float x) = true ∧
        (x ≠ Binary64.zero true → y = x) := by
  refine ⟨Layout.display.write x, rfl, ?_, ?_⟩
  · rintro negative rank rfl
    obtain ⟨-, shown, hshown, -, hwritten, hrational⟩ := Layout.display.denotes_write negative rank
    obtain ⟨-, exact, hexact, -, hwritten', hrational'⟩ := Layout.exact.denotes_write negative rank
    refine ⟨⟨shown, exact, ?_, ?_, hrational.trans hrational'.symm⟩,
      Layout.write_display_of_isPlain negative⟩
    · rw [← hwritten, Numeral.read?_written hshown]
    · rw [← hwritten', Numeral.read?_written hexact]
  · cases x with
    | nan => exact absurd rfl h
    | infinite negative =>
      refine ⟨_, Layout.isReadAs_write_infinite negative, ?_, fun _ => rfl⟩
      cases negative <;> rfl
    | finite negative rank =>
      by_cases hzero : (rank : Nat) = 0
      · obtain ⟨rank, hbound⟩ := rank
        obtain rfl : rank = 0 := hzero
        refine ⟨_, Layout.isReadAs_write_zero negative hbound, ?_, fun hsign => ?_⟩
        · have hunits : Binary64.units 0 = 0 := rfl
          simp [Number.equals, Number.place?, Binary64.signedUnits, hunits]
        · cases negative with
          | false => rfl
          | true => exact absurd (Binary64.ofRank_eq_finite_iff.2 rfl).symm hsign
      · refine ⟨_, Layout.isReadAs_write negative hzero, ?_, fun _ => rfl⟩
        simp [Number.equals, Number.place?]

/-- The number -2^-24 is shown with an exponent, and what is shown of it is read back as it. -/
theorem shown_number_kept_tiny :
    (.finite true ⟨4499096027743125504, by decide⟩ : Binary64) ≠ .nan ∧
    ∃ text, (Value.float (.finite true ⟨4499096027743125504, by decide⟩)).text = .ok text ∧
      String.ofList text = "-5.960464477539063e-8" ∧
      IsReadAs text (.finite true ⟨4499096027743125504, by decide⟩) := by
  have hnumber : (.finite true ⟨4499096027743125504, by decide⟩ : Binary64) ≠ .nan := nofun
  obtain ⟨text, htext, -, y, hread, -, hkept⟩ := shown_number_kept _ hnumber
  refine ⟨hnumber, text, htext, ?_, ?_⟩
  · have hshown : Layout.display.write (.finite true ⟨4499096027743125504, by decide⟩)
        = "-5.960464477539063e-8".toList := by decide +kernel
    have hsame : Layout.display.write (.finite true ⟨4499096027743125504, by decide⟩) = text :=
      Except.ok.inj htext
    rw [← hsame, hshown, String.ofList_toList]
  · rwa [hkept (by decide)] at hread

end LiveValue
