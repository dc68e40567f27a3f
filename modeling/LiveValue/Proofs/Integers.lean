import LiveValue.Number.Numeral
import Mathlib

/-!
# Integers in decimal

An integer that is written in decimal is read as that integer, as long as it has no more digits
than may be converted.

* `Text.trim_eq_self`: a text without blanks at its ends;
* `Number.parse_decimal`: reading an integer in decimal;
* `Number.parse_eq_none`: texts that are read as no number.
-/

namespace LiveValue

/-! ## Texts without blanks at their ends -/

namespace Text

theorem dropWhile_eq_self {kind : Char → Bool} {s : List Char}
    (h : ∀ c, s.head? = some c → kind c = false) : s.dropWhile kind = s := by
  cases s with
  | nil => rfl
  | cons c rest => rw [List.dropWhile_cons, h c rfl, if_neg (by decide)]

theorem takeWhile_eq_nil {kind : Char → Bool} {s : List Char}
    (h : ∀ c, s.head? = some c → kind c = false) : s.takeWhile kind = [] := by
  cases s with
  | nil => rfl
  | cons c rest => rw [List.takeWhile_cons, h c rfl, if_neg (by decide)]

/-- A run of characters of a kind ends at the first character of another kind. -/
theorem span_append {kind : Char → Bool} {run rest : List Char}
    (hrun : ∀ c ∈ run, kind c = true) (hrest : ∀ c, rest.head? = some c → kind c = false) :
    (run ++ rest).span kind = (run, rest) := by
  rw [List.span_eq_takeWhile_dropWhile, List.takeWhile_append_of_pos hrun,
    List.dropWhile_append_of_pos hrun, takeWhile_eq_nil hrest, dropWhile_eq_self hrest,
    List.append_nil]

/-- A text that neither starts nor ends with a blank has nothing to trim. -/
theorem trim_eq_self {s : List Char} (hfirst : ∀ c, s.head? = some c → isBlank c = false)
    (hlast : ∀ c, s.getLast? = some c → isBlank c = false) : trim s = s := by
  have hreverse : ∀ c, s.reverse.head? = some c → isBlank c = false := by
    intro c hc
    rw [List.head?_reverse] at hc
    exact hlast c hc
  rw [trim, stripBoth, dropWhile_eq_self hfirst, dropWhile_eq_self hreverse, List.reverse_reverse]

/-- What stands between two characters that are not blank is not looked at. -/
theorem trim_cons_concat {c d : Char} (hc : isBlank c = false) (hd : isBlank d = false)
    (s : List Char) : trim (c :: (s ++ [d])) = c :: (s ++ [d]) := by
  refine trim_eq_self (fun first hfirst => ?_) fun last hlast => ?_
  · obtain rfl : c = first := Option.some.inj hfirst
    exact hc
  · rw [← List.cons_append, List.getLast?_concat] at hlast
    obtain rfl : d = last := Option.some.inj hlast
    exact hd

/-- No graphic character of ASCII is blank. -/
theorem isBlank_of_graphic {c : Char} (hlow : 0x21 ≤ c.toNat) (hhigh : c.toNat ≤ 0x7E) :
    isBlank c = false := by
  simp only [isBlank, blankRanges, List.any_eq_false]
  intro range hrange
  simp only [List.mem_cons, List.not_mem_nil, or_false] at hrange
  rcases hrange with rfl | rfl | rfl | rfl | rfl | rfl | rfl | rfl | rfl | rfl <;>
    simp <;> omega

theorem isBlank_of_isAlphanum {c : Char} (h : c.isAlphanum = true) : isBlank c = false := by
  simp only [Char.isAlphanum, Char.isAlpha, Char.isUpper, Char.isLower, Char.isDigit,
    Bool.or_eq_true, Bool.and_eq_true, decide_eq_true_eq, UInt32.le_iff_toNat_le] at h
  have hcode : c.toNat = c.val.toNat := rfl
  simp at h
  exact isBlank_of_graphic (by omega) (by omega)

theorem isBlank_of_isDigit {c : Char} (h : c.isDigit = true) : isBlank c = false :=
  isBlank_of_isAlphanum (by rw [Char.isAlphanum, h, Bool.or_true])

end Text

/-! ## Decimal digits -/

namespace Decimal

theorem isDigit_of_mem_digits {n : Nat} {c : Char} (h : c ∈ digits n) : c.isDigit = true :=
  Nat.isDigit_of_mem_toDigits (by decide) (by decide) h

theorem digits_ne_nil (n : Nat) : digits n ≠ [] := Nat.toDigits_ne_nil

theorem ofDigits_digits (n : Nat) : ofDigits (digits n) = n := Nat.ofDigitChars_ten_toDigits

end Decimal

/-! ## Integers -/

namespace Number

def decimal (i : Int) : List Char := (if i < 0 then ['-'] else []) ++ Decimal.digits i.natAbs

theorem head?_digits (n : Nat) {c : Char} (h : (Decimal.digits n).head? = some c) :
    c.isDigit = true :=
  Decimal.isDigit_of_mem_digits (List.mem_of_head? h)

theorem sign_digits (n : Nat) : Numeral.sign (Decimal.digits n) = (false, Decimal.digits n) := by
  unfold Numeral.sign
  split
  · next rest hdigits =>
    have hminus : '-'.isDigit = true := head?_digits n (by rw [hdigits]; rfl)
    exact absurd hminus (by decide)
  · next rest hdigits =>
    have hplus : '+'.isDigit = true := head?_digits n (by rw [hdigits]; rfl)
    exact absurd hplus (by decide)
  · rfl

theorem sign_decimal (i : Int) :
    Numeral.sign (decimal i) = (decide (i < 0), Decimal.digits i.natAbs) := by
  unfold decimal
  split
  · next hneg => rw [decide_eq_true hneg]; rfl
  · next hneg => rw [decide_eq_false hneg, List.nil_append, sign_digits]

theorem digitRun_digits (n : Nat) :
    Numeral.digitRun (Decimal.digits n) = (Decimal.digits n, []) := by
  have hspan : (Decimal.digits n ++ []).span Char.isDigit = (Decimal.digits n, []) :=
    Text.span_append (fun c hc => Decimal.isDigit_of_mem_digits hc) fun c hc => by cases hc
  rwa [List.append_nil] at hspan

theorem read?_decimal (i : Int) :
    Numeral.read? (decimal i)
      = some ⟨decide (i < 0), Decimal.digits i.natAbs, none, none⟩ := by
  have hsome : (Decimal.digits i.natAbs).isEmpty = false := by
    rw [List.isEmpty_eq_false_iff]
    exact Decimal.digits_ne_nil _
  unfold Numeral.read?
  rw [sign_decimal]
  simp only [digitRun_digits, hsome, Bool.false_and, Bool.not_false]
  rfl

theorem eq_minus_or_isDigit_of_mem_decimal {i : Int} {c : Char} (h : c ∈ decimal i) :
    c = '-' ∨ c.isDigit = true := by
  unfold decimal at h
  rcases List.mem_append.1 h with hsign | hdigit
  · split at hsign
    · exact .inl (List.mem_singleton.1 hsign)
    · cases hsign
  · exact .inr (Decimal.isDigit_of_mem_digits hdigit)

theorem decimal_ne_nil (i : Int) : decimal i ≠ [] := fun h =>
  Decimal.digits_ne_nil _ (List.append_eq_nil_iff.1 h).2

theorem trim_decimal (i : Int) : Text.trim (decimal i) = decimal i := by
  have hblank : ∀ c ∈ decimal i, Text.isBlank c = false := by
    intro c hc
    rcases eq_minus_or_isDigit_of_mem_decimal hc with rfl | hdigit
    · decide
    · exact Text.isBlank_of_isDigit hdigit
  exact Text.trim_eq_self (fun c hc => hblank c (List.mem_of_head? hc))
    fun c hc => hblank c (List.mem_of_getLast? hc)

/-- Reading an integer in decimal. -/
theorem parse_decimal {i : Int} (h : (Decimal.digits i.natAbs).length ≤ maxDigits) :
    parse (decimal i) = .ok (some (.int i)) := by
  have hvalue : (if decide (i < 0) = true then -(i.natAbs : Int) else i.natAbs) = i := by
    split
    · next hneg => rw [decide_eq_true_eq] at hneg; omega
    · next hneg => rw [decide_eq_true_eq] at hneg; omega
  have hnumeral : Numeral.value ⟨decide (i < 0), Decimal.digits i.natAbs, none, none⟩
      = .ok (.int i) := by
    unfold Numeral.value
    dsimp only
    rw [if_pos (by rfl), if_neg (Nat.not_lt.2 h), Decimal.ofDigits_digits, hvalue]
  unfold parse
  dsimp only
  rw [trim_decimal, read?_decimal]
  dsimp only
  rw [hnumeral]
  rfl

/-- A text that starts like no number denotes none. -/
theorem parse_eq_none {c : Char} {rest : List Char} (htrim : Text.trim (c :: rest) = c :: rest)
    (hdigit : c.isDigit = false) (hmark : c ∉ ['-', '+', '.', 'I']) :
    parse (c :: rest) = .ok none := by
  simp only [List.mem_cons, List.not_mem_nil, or_false, not_or] at hmark
  obtain ⟨hminus, hplus, hpoint, hinfinity⟩ := hmark
  have hsign : Numeral.sign (c :: rest) = (false, c :: rest) := by
    unfold Numeral.sign
    split
    · next h => exact absurd (List.cons.inj h).1 hminus
    · next h => exact absurd (List.cons.inj h).1 hplus
    · rfl
  have hrun : Numeral.digitRun (c :: rest) = ([], c :: rest) := by
    rw [Numeral.digitRun, List.span_eq_takeWhile_dropWhile, List.takeWhile_cons, hdigit,
      List.dropWhile_cons, hdigit]
    rfl
  have hread : Numeral.read? (c :: rest) = none := by
    simp [Numeral.read?, hsign, hrun, hpoint]
  have hradix : Numeral.readRadix? (c :: rest) = none := by
    unfold Numeral.readRadix?
    split
    · next h =>
      obtain rfl := (List.cons.inj h).1
      cases hdigit
    · rfl
  have hinfinite : Numeral.readInfinity? (c :: rest) = none := by
    have hne : c :: rest ≠ "Infinity".toList := fun h =>
      hinfinity (Option.some.inj (congrArg List.head? h))
    rw [Numeral.readInfinity?, hsign]
    exact if_neg hne
  rw [parse, htrim, hread, hradix, hinfinite]
  rfl

end Number

end LiveValue
