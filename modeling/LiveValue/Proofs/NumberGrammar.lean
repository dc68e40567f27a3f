import LiveValue.Proofs.NearestNumbers
import LiveValue.Proofs.StructuredText

/-!
# The grammar of numbers

A text denotes a number if it is spelled in one of four ways: as a decimal integer, as an integer in
radix 16, 8 or 2, as a decimal numeral with a point or an exponent, or as infinity. Reading accepts
these texts and no others, blanks around them aside, and comes to the number that the places of the
digits make up, rounded where there is a point or an exponent.

* `Text.placeValue`: the number that digits denote by their places;
* `Numeral.read?_eq_some_iff`, `Numeral.readRadix?_eq_some_iff`, `Numeral.readInfinity?_eq_some_iff`:
  what each of the readers accepts;
* `Number.SpelledAs`: the texts of a number;
* `Number.parse_eq_some_iff`: a text is read as the number whose text it is;
* `numbers_parsed_exactly`: the numbers, the faults and all other texts.
-/

namespace LiveValue

/-! ## Digits and their places -/

namespace Text

/-- The digits of all radices, each at the place that it counts. -/
def digitOrder : List Char :=
  ['0', '1', '2', '3', '4', '5', '6', '7', '8', '9', 'a', 'b', 'c', 'd', 'e', 'f']

/-- What a digit counts, a letter in either case. -/
def digitCount (c : Char) : Nat := digitOrder.idxOf c.toLower

/-- A digit of a radix counts less than the radix. -/
def IsDigitIn (radix : Nat) (c : Char) : Prop := c.toLower ∈ digitOrder ∧ digitCount c < radix

/-- The number that digits denote by their places, of which the last one is that of the ones. -/
def placeValue (radix : Nat) (ds : List Char) : Nat :=
  Nat.ofDigits radix (ds.reverse.map digitCount)

theorem placeValue_concat (radix : Nat) (ds : List Char) (d : Char) :
    placeValue radix (ds ++ [d]) = radix * placeValue radix ds + digitCount d := by
  rw [placeValue, List.reverse_concat, List.map_cons, Nat.ofDigits_cons, placeValue]
  ring

/-- Reading digits from left to right adds up their places. -/
theorem foldl_eq_placeValue {radix : Nat} {count : Char → Nat} {ds : List Char}
    (h : ∀ d ∈ ds, count d = digitCount d) :
    ds.foldl (fun n d => radix * n + count d) 0 = placeValue radix ds := by
  induction ds using List.reverseRecOn with
  | nil => rfl
  | append_singleton ds d ih =>
    have hds := ih fun c hc => h c (List.mem_append_left _ hc)
    have hd := h d (List.mem_append_right _ List.mem_cons_self)
    rw [List.foldl_concat, placeValue_concat, hds, hd]

/-- What holds of each of the first 128 characters holds of any one of them. -/
@[elab_as_elim]
theorem ascii_induction {P : Char → Prop} {c : Char} (hc : c.toNat < 128)
    (h : ∀ n, n < 128 → P (Char.ofNat n)) : P c := by
  have hcode := h c.toNat hc
  rwa [Char.ofNat_toNat] at hcode

theorem toNat_lt_of_le {c d : Char} (h : c ≤ d) (hd : d.toNat < 128) : c.toNat < 128 :=
  Nat.lt_of_le_of_lt h hd

theorem toNat_lt_of_mem_digitOrder {c : Char} (h : c.toLower ∈ digitOrder) : c.toNat < 128 := by
  have hletters : ∀ d ∈ digitOrder, d.toNat < 128 := by simp [digitOrder]
  have hlower := hletters _ h
  unfold Char.toLower at hlower
  split at hlower
  · next hupper => exact toNat_lt_of_le (d := 'Z') hupper.2 (by decide)
  · exact hlower

theorem toNat_lt_of_isDigit {c : Char} (h : c.isDigit = true) : c.toNat < 128 := by
  simp only [Char.isDigit, Bool.and_eq_true, decide_eq_true_eq] at h
  exact toNat_lt_of_le (d := '9') h.2 (by decide)

theorem digitCount_of_isDigit {c : Char} (h : c.isDigit = true) :
    c.toNat - '0'.toNat = digitCount c := by
  have hascii := toNat_lt_of_isDigit h
  revert h
  refine ascii_induction hascii ?_
  decide

theorem digitValue?_eq (radix : Nat) (c : Char) :
    digitValue? radix c =
      if c.toLower ∈ digitOrder ∧ digitCount c < radix then some (digitCount c) else none := by
  have hvalue : (if '0' ≤ c ∧ c ≤ '9' then some (c.toNat - '0'.toNat)
      else if 'a' ≤ c ∧ c ≤ 'f' then some (c.toNat - 'a'.toNat + 10)
      else if 'A' ≤ c ∧ c ≤ 'F' then some (c.toNat - 'A'.toNat + 10)
      else none) = if c.toLower ∈ digitOrder then some (digitCount c) else none := by
    by_cases hascii : c.toNat < 128
    · refine ascii_induction hascii ?_
      decide +kernel
    · -- beyond them there is no digit
      rw [if_neg, if_neg, if_neg, if_neg]
      · exact fun h => hascii (toNat_lt_of_mem_digitOrder h)
      · exact fun h => hascii (toNat_lt_of_le h.2 (by decide))
      · exact fun h => hascii (toNat_lt_of_le h.2 (by decide))
      · exact fun h => hascii (toNat_lt_of_le h.2 (by decide))
  unfold digitValue?
  rw [hvalue]
  by_cases h : c.toLower ∈ digitOrder <;> simp [h, Option.filter]

theorem isDigitOf_iff {radix : Nat} {c : Char} : isDigitOf radix c = true ↔ IsDigitIn radix c := by
  rw [isDigitOf, digitValue?_eq, IsDigitIn]
  split
  · next h => simp [h]
  · next h => simp [h]

theorem isDigitIn_of_all {radix : Nat} {ds : List Char} (h : ds.all (isDigitOf radix) = true) :
    ∀ d ∈ ds, IsDigitIn radix d :=
  fun d hd => isDigitOf_iff.1 (List.all_eq_true.1 h d hd)

theorem ofDigits_eq_placeValue {radix : Nat} {ds : List Char} (h : ∀ d ∈ ds, IsDigitIn radix d) :
    ofDigits radix ds = placeValue radix ds := by
  refine foldl_eq_placeValue fun d hd => ?_
  have hdigit := h d hd
  unfold IsDigitIn at hdigit
  rw [digitValue?_eq, if_pos hdigit, Option.getD_some]

end Text

theorem Decimal.ofDigits_eq_placeValue {ds : List Char} (h : ∀ d ∈ ds, d.isDigit = true) :
    ofDigits ds = Text.placeValue 10 ds :=
  Text.foldl_eq_placeValue fun d hd => Text.digitCount_of_isDigit (h d hd)

/-! ## Decimal numerals -/

namespace Numeral

variable {n : Numeral} {s : List Char}

theorem signSpelledAs_of_sign {rest : List Char} {negative : Bool}
    (h : sign s = (negative, rest)) :
    ∃ written, SignSpelledAs negative written ∧ s = written ++ rest := by
  unfold sign at h
  split at h
  · cases h
    exact ⟨['-'], .minus, rfl⟩
  · cases h
    exact ⟨['+'], .plus, rfl⟩
  · cases h
    exact ⟨[], .none, rfl⟩

theorem exponentSpelledAs_of_readExponent? {e : Option (Bool × List Char)}
    (h : readExponent? s = some e) : ExponentSpelledAs e s := by
  cases s with
  | nil =>
    obtain rfl := Option.some.inj h
    exact .none
  | cons letter rest =>
    rw [readExponent?] at h
    split at h
    · next hletter =>
      rcases hsplit : sign rest with ⟨negative, digits⟩
      obtain ⟨written, hsign, rfl⟩ := signSpelledAs_of_sign hsplit
      rw [hsplit] at h
      dsimp only at h
      split at h
      · next hdigits =>
        obtain rfl := Option.some.inj h
        rw [Bool.and_eq_true, Bool.not_eq_true', List.isEmpty_eq_false_iff,
          List.all_eq_true] at hdigits
        exact .some hletter hsign hdigits
      · cases h
    · cases h

theorem exists_digitRun (s : List Char) :
    ∃ run rest, s = run ++ rest ∧ (∀ c ∈ run, c.isDigit = true) ∧ digitRun s = (run, rest) :=
  ⟨_, _, List.takeWhile_append_dropWhile.symm, fun _ hc => List.mem_takeWhile_imp hc, digitRun_eq s⟩

/-- What is read as a numeral is one of its texts. -/
theorem spelledAs_of_read? (h : read? s = some n) : n.SpelledAs s := by
  rcases hsplit : sign s with ⟨negative, unsigned⟩
  obtain ⟨written, hsign, rfl⟩ := signSpelledAs_of_sign hsplit
  obtain ⟨whole, behind, rfl, hwhole, hrun⟩ := exists_digitRun unsigned
  unfold read? at h
  simp only [hsplit, hrun, Option.bind_eq_bind, Option.bind_eq_some_iff, Option.guard_eq_some'] at h
  obtain ⟨_, hsome, exponent, hread, hn⟩ := h
  cases hn
  split at hread
  · next _ more =>
    obtain ⟨fraction, rest, rfl, hfraction, hrun⟩ := exists_digitRun more
    simp only [hrun] at hread hsome ⊢
    have hdigits : AreDigits (whole ++ fraction) := by
      refine ⟨fun hnone => ?_, List.forall_mem_append.2 ⟨hwhole, hfraction⟩⟩
      rw [List.append_eq_nil_iff] at hnone
      simp [hnone] at hsome
    have hspelled := SpelledAs.intro (n := ⟨negative, whole, some fraction, exponent⟩) hsign hdigits
      (exponentSpelledAs_of_readExponent? hread)
    simpa [fractionText] using hspelled
  · have hdigits : AreDigits (whole ++ []) := by
      rw [List.append_nil]
      refine ⟨fun hnone => ?_, hwhole⟩
      simp [hnone] at hsome
    have hspelled := SpelledAs.intro (n := ⟨negative, whole, none, exponent⟩) hsign hdigits
      (exponentSpelledAs_of_readExponent? hread)
    simpa [fractionText] using hspelled

theorem read?_eq_some_iff : read? s = some n ↔ n.SpelledAs s :=
  ⟨spelledAs_of_read?, read?_of_spelledAs⟩

/-- The characters that numerals are spelled with. -/
def IsNumeralChar (c : Char) : Prop := c.isDigit = true ∨ c ∈ ['-', '+', '.', 'e', 'E']

theorem SignSpelledAs.isNumeralChar {negative : Bool} (h : SignSpelledAs negative s) :
    ∀ c ∈ s, IsNumeralChar c := by
  cases h <;> simp [IsNumeralChar]

theorem ExponentSpelledAs.isNumeralChar {e : Option (Bool × List Char)} (h : ExponentSpelledAs e s) :
    ∀ c ∈ s, IsNumeralChar c := by
  cases h with
  | none => nofun
  | some hletter hsign hdigits =>
    refine List.forall_mem_cons.2 ⟨?_, List.forall_mem_append.2 ⟨hsign.isNumeralChar, ?_⟩⟩
    · rcases hletter with rfl | rfl <;> simp [IsNumeralChar]
    · exact fun c hc => .inl (hdigits.2 c hc)

theorem SpelledAs.isNumeralChar (h : n.SpelledAs s) : ∀ c ∈ s, IsNumeralChar c := by
  obtain ⟨hsign, hdigits, hexponent⟩ := h
  have hall := List.forall_mem_append.1 hdigits.2
  refine List.forall_mem_append.2 ⟨List.forall_mem_append.2
    ⟨List.forall_mem_append.2 ⟨hsign.isNumeralChar, fun c hc => .inl (hall.1 c hc)⟩, ?_⟩,
    hexponent.isNumeralChar⟩
  cases hfraction : n.fraction with
  | none => nofun
  | some ds =>
    rw [hfraction] at hall
    refine List.forall_mem_cons.2 ⟨?_, fun c hc => .inl (hall.2 c hc)⟩
    simp [IsNumeralChar]

/-- A text with another character in it is no numeral. -/
theorem read?_eq_none {c : Char} (hc : c ∈ s) (h : ¬IsNumeralChar c) : read? s = none := by
  cases hread : read? s with
  | none => rfl
  | some n => exact absurd ((spelledAs_of_read? hread).isNumeralChar c hc) h

/-! ## What numerals denote -/

/-- A numeral without a point and an exponent is an integer. -/
def IsInteger (n : Numeral) : Prop := n.fraction = none ∧ n.exponent = none

def signed (negative : Bool) (magnitude : Nat) : Int := if negative then -magnitude else magnitude

/-- The power of ten that the exponent of a numeral denotes. -/
def denotedPower (n : Numeral) : Int :=
  match n.exponent with
  | none => 0
  | some (negative, ds) => signed negative (Text.placeValue 10 ds)

/-- What a numeral denotes, its sign aside. -/
def denoted (n : Numeral) : ℚ :=
  Text.placeValue 10 (n.whole ++ n.fraction.getD []) *
    10 ^ (n.denotedPower - (n.fraction.getD []).length)

theorem denoted_nonneg (n : Numeral) : 0 ≤ n.denoted := by
  unfold denoted
  positivity

theorem SpelledAs.power_eq (h : n.SpelledAs s) : n.power = n.denotedPower := by
  obtain ⟨-, -, hexponent⟩ := h
  unfold power denotedPower
  cases he : n.exponent with
  | none => rfl
  | some parts =>
    rw [he] at hexponent
    cases hexponent with
    | some _ _ hds => simp only [Decimal.ofDigits_eq_placeValue hds.2, signed]

/-- A numeral is rounded to the number nearest to what it denotes. -/
theorem SpelledAs.isRounded_nearest (h : n.SpelledAs s) :
    Binary64.IsRounded n.negative n.denoted n.nearest := by
  have hpower := h.power_eq
  obtain ⟨-, hdigits, -⟩ := h
  rw [denoted, ← Decimal.ofDigits_eq_placeValue hdigits.2, ← hpower]
  exact Binary64.isRounded_ofDecimal _ _ _

theorem value_of_isInteger (hinteger : n.IsInteger) :
    n.value = if Number.maxDigits < n.whole.length then .error .digitLimit
      else .ok (.int (signed n.negative (Decimal.ofDigits n.whole))) := by
  have hnone : (n.fraction.isNone && n.exponent.isNone) = true := by simp [hinteger.1, hinteger.2]
  rw [value, if_pos hnone]
  rfl

theorem value_of_not_isInteger (hinteger : ¬n.IsInteger) : n.value = .ok (.float n.nearest) := by
  have hsome : ¬(n.fraction.isNone && n.exponent.isNone) = true := by
    simpa [IsInteger] using hinteger
  rw [value, if_neg hsome]

theorem SpelledAs.ofDigits_whole (h : n.SpelledAs s) :
    Decimal.ofDigits n.whole = Text.placeValue 10 n.whole := by
  obtain ⟨-, hdigits, -⟩ := h
  exact Decimal.ofDigits_eq_placeValue fun d hd => hdigits.2 d (List.mem_append_left _ hd)

/-! ## Other radices and infinity -/

/-- The letter behind the zero that a numeral of another radix begins with, in either case. -/
inductive Announces : Char → Nat → Prop
  | hexadecimal {c : Char} : c = 'x' ∨ c = 'X' → Announces c 16
  | octal {c : Char} : c = 'o' ∨ c = 'O' → Announces c 8
  | binary {c : Char} : c = 'b' ∨ c = 'B' → Announces c 2

theorem radix?_eq_some_iff {c : Char} {radix : Nat} : radix? c = some radix ↔ Announces c radix := by
  constructor
  · intro h
    unfold radix? at h
    split at h
    · next hc =>
      cases h
      exact .hexadecimal hc
    · split at h
      · next hc =>
        cases h
        exact .octal hc
      · split at h
        · next hc =>
          cases h
          exact .binary hc
        · cases h
  · intro h
    cases h with
    | hexadecimal hc => rcases hc with rfl | rfl <;> rfl
    | octal hc => rcases hc with rfl | rfl <;> rfl
    | binary hc => rcases hc with rfl | rfl <;> rfl

theorem Announces.not_isNumeralChar {c : Char} {radix : Nat} (h : Announces c radix) :
    ¬IsNumeralChar c := by
  unfold IsNumeralChar
  cases h with
  | hexadecimal hc => rcases hc with rfl | rfl <;> decide
  | octal hc => rcases hc with rfl | rfl <;> decide
  | binary hc => rcases hc with rfl | rfl <;> decide

/-- A numeral in radix 16, 8 or 2 has no sign, at least one digit and digits of its radix only. -/
inductive RadixSpelledAs : Int → List Char → Prop
  | intro {letter : Char} {radix : Nat} {digits : List Char} :
      Announces letter radix → digits ≠ [] → (∀ d ∈ digits, Text.IsDigitIn radix d) →
      RadixSpelledAs (Text.placeValue radix digits) ('0' :: letter :: digits)

theorem readRadix?_eq_some_iff {i : Int} : readRadix? s = some i ↔ RadixSpelledAs i s := by
  constructor
  · intro h
    unfold readRadix? at h
    split at h
    · next letter digits =>
      simp only [Option.bind_eq_bind, Option.bind_eq_some_iff, Option.guard_eq_some',
        Bool.and_eq_true, Bool.not_eq_true', List.isEmpty_eq_false_iff, List.all_eq_true,
        Text.isDigitOf_iff] at h
      obtain ⟨radix, hradix, _, ⟨hsome, hdigits⟩, hi⟩ := h
      cases hi
      rw [Text.ofDigits_eq_placeValue hdigits]
      exact .intro (radix?_eq_some_iff.1 hradix) hsome hdigits
    · cases h
  · rintro ⟨hletter, hsome, hdigits⟩
    rw [← Text.ofDigits_eq_placeValue hdigits]
    simpa [readRadix?, radix?_eq_some_iff.2 hletter, hsome, Option.bind_eq_some_iff,
      Option.guard_eq_some', Text.isDigitOf_iff] using hdigits

/-- Infinity is a word, with a sign or without one. -/
inductive InfinitySpelledAs : Binary64 → List Char → Prop
  | intro {negative : Bool} {sign : List Char} :
      SignSpelledAs negative sign →
      InfinitySpelledAs (.infinite negative) (sign ++ "Infinity".toList)

theorem readInfinity?_eq_some_iff {x : Binary64} :
    readInfinity? s = some x ↔ InfinitySpelledAs x s := by
  constructor
  · intro h
    rcases hsplit : sign s with ⟨negative, rest⟩
    obtain ⟨written, hsign, rfl⟩ := signSpelledAs_of_sign hsplit
    unfold readInfinity? at h
    rw [hsplit] at h
    dsimp only at h
    split at h
    · next hrest =>
      obtain rfl := Option.some.inj h
      rw [hrest]
      exact .intro hsign
    · cases h
  · rintro ⟨hsign⟩
    cases hsign <;> rfl

theorem RadixSpelledAs.read?_eq_none {i : Int} (h : RadixSpelledAs i s) : read? s = none := by
  obtain ⟨hletter, -, -⟩ := h
  exact Numeral.read?_eq_none (List.mem_cons_of_mem _ List.mem_cons_self) hletter.not_isNumeralChar

theorem InfinitySpelledAs.read?_eq_none {x : Binary64} (h : InfinitySpelledAs x s) :
    read? s = none ∧ readRadix? s = none := by
  obtain ⟨hsign⟩ := h
  have hletter : ¬IsNumeralChar 'I' := by
    unfold IsNumeralChar
    decide
  refine ⟨Numeral.read?_eq_none (List.mem_append_right _ List.mem_cons_self) hletter, ?_⟩
  cases hsign <;> rfl

end Numeral

/-! ## The texts of numbers -/

namespace Number

open Numeral

/-- The texts of a number.

* `integer`: a decimal numeral without a point and an exponent, of at most 4300 digits, is the
  integer that its places make up;
* `radix`: so is a numeral in radix 16, 8 or 2, of any length;
* `rounded`: a decimal numeral with a point or an exponent is the nearest binary64 number;
* `infinity`: the word for infinity has a sign or none. -/
inductive SpelledAs : Number → List Char → Prop
  | integer {n : Numeral} {s : List Char} :
      n.SpelledAs s → n.IsInteger → n.whole.length ≤ 4300 →
      SpelledAs (.int (signed n.negative (Text.placeValue 10 n.whole))) s
  | radix {i : Int} {s : List Char} : RadixSpelledAs i s → SpelledAs (.int i) s
  | rounded {n : Numeral} {x : Binary64} {s : List Char} :
      n.SpelledAs s → ¬n.IsInteger → Binary64.IsRounded n.negative n.denoted x →
      SpelledAs (.float x) s
  | infinity {x : Binary64} {s : List Char} : InfinitySpelledAs x s → SpelledAs (.float x) s

variable {t : List Char} {a : Number}

theorem parse_of_read? {n : Numeral} (h : read? (Text.trim t) = some n) :
    parse t = n.value.map some := by
  unfold parse
  simp only [h]

theorem parse_of_readRadix? (h : read? (Text.trim t) = none) {i : Int}
    (hradix : readRadix? (Text.trim t) = some i) : parse t = .ok (some (.int i)) := by
  unfold parse
  simp only [h, hradix]

theorem parse_of_neither (h : read? (Text.trim t) = none) (hradix : readRadix? (Text.trim t) = none) :
    parse t = .ok ((readInfinity? (Text.trim t)).map .float) := by
  unfold parse
  simp only [h, hradix]

/-- A text of a number is read as that number. -/
theorem SpelledAs.parse_eq (h : a.SpelledAs (Text.trim t)) : parse t = .ok (some a) := by
  cases h with
  | @integer n _ hspelled hinteger hlength =>
    have hlimit : ¬maxDigits < n.whole.length := not_lt.2 hlength
    rw [parse_of_read? (read?_of_spelledAs hspelled), value_of_isInteger hinteger,
      if_neg hlimit, hspelled.ofDigits_whole]
    rfl
  | radix hspelled =>
    exact parse_of_readRadix? hspelled.read?_eq_none (readRadix?_eq_some_iff.2 hspelled)
  | @rounded n x _ hspelled hinteger hrounded =>
    obtain rfl := hrounded.unique hspelled.isRounded_nearest n.denoted_nonneg
    rw [parse_of_read? (read?_of_spelledAs hspelled), value_of_not_isInteger hinteger]
    rfl
  | infinity hspelled =>
    obtain ⟨hread, hradix⟩ := hspelled.read?_eq_none
    rw [parse_of_neither hread hradix, readInfinity?_eq_some_iff.2 hspelled]
    rfl

/-- What is read as a number is one of its texts. -/
theorem spelledAs_of_parse (h : parse t = .ok (some a)) : a.SpelledAs (Text.trim t) := by
  cases hread : read? (Text.trim t) with
  | some n =>
    have hspelled := spelledAs_of_read? hread
    rw [parse_of_read? hread] at h
    by_cases hinteger : n.IsInteger
    · rw [value_of_isInteger hinteger, hspelled.ofDigits_whole] at h
      split at h
      · cases h
      · next hlength =>
        cases h
        exact .integer hspelled hinteger (not_lt.1 hlength)
    · rw [value_of_not_isInteger hinteger] at h
      cases h
      exact .rounded hspelled hinteger hspelled.isRounded_nearest
  | none =>
    cases hradix : readRadix? (Text.trim t) with
    | some i =>
      rw [parse_of_readRadix? hread hradix] at h
      cases h
      exact .radix (readRadix?_eq_some_iff.1 hradix)
    | none =>
      rw [parse_of_neither hread hradix, Except.ok.injEq, Option.map_eq_some_iff] at h
      obtain ⟨x, hx, rfl⟩ := h
      exact .infinity (readInfinity?_eq_some_iff.1 hx)

theorem parse_eq_some_iff : parse t = .ok (some a) ↔ a.SpelledAs (Text.trim t) :=
  ⟨spelledAs_of_parse, SpelledAs.parse_eq⟩

/-- Only a decimal integer of too many digits is a fault. -/
theorem parse_eq_error_iff {fault : Fault} :
    parse t = .error fault ↔ fault = .digitLimit ∧ Numeral.TooLong t := by
  constructor
  · exact parse_eq_error
  · rintro ⟨rfl, written, digits, hwritten, htext, hdigits, hlong⟩
    obtain ⟨negative, hsign⟩ : ∃ negative, SignSpelledAs negative written := by
      rcases hwritten with rfl | rfl | rfl
      · exact ⟨_, .none⟩
      · exact ⟨_, .minus⟩
      · exact ⟨_, .plus⟩
    have hsome : digits ≠ [] := List.ne_nil_of_length_pos (Nat.zero_lt_of_lt hlong)
    have hspelled : (⟨negative, digits, none, none⟩ : Numeral).SpelledAs (Text.trim t) := by
      have hintro := Numeral.SpelledAs.intro (n := ⟨negative, digits, none, none⟩) hsign
        ⟨by simpa using hsome, by simpa using hdigits⟩ .none
      rw [htext]
      simpa [fractionText] using hintro
    rw [parse_of_read? (read?_of_spelledAs hspelled), value_of_isInteger ⟨rfl, rfl⟩, if_pos hlong]
    rfl

/-- All other texts are read as no number. -/
theorem parse_eq_none_iff :
    parse t = .ok none ↔
      (∀ a : Number, ¬a.SpelledAs (Text.trim t)) ∧ ¬Numeral.TooLong t := by
  constructor
  · intro h
    refine ⟨fun a hspelled => ?_, fun hlong => ?_⟩
    · rw [hspelled.parse_eq] at h
      cases h
    · rw [parse_eq_error_iff.2 ⟨rfl, hlong⟩] at h
      cases h
  · rintro ⟨hnumber, hlong⟩
    cases h : parse t with
    | error fault => exact absurd (parse_eq_error_iff.1 h).2 hlong
    | ok found =>
      cases found with
      | none => rfl
      | some a => exact absurd (parse_eq_some_iff.1 h) (hnumber a)

end Number

/-- **Numbers are parsed exactly.** A text is read as the number whose text it is, blanks around it
aside; the one fault is a decimal integer of more than 4300 digits, and every other text is no
number. What is shown of an integer with so few digits is read as that integer. -/
theorem numbers_parsed_exactly (t : List Char) :
    (∀ a, Number.parse t = .ok (some a) ↔ a.SpelledAs (Text.trim t)) ∧
    (∀ fault, Number.parse t = .error fault ↔ fault = .digitLimit ∧ Numeral.TooLong t) ∧
    (Number.parse t = .ok none ↔
      (∀ a : Number, ¬a.SpelledAs (Text.trim t)) ∧ ¬Numeral.TooLong t) ∧
    (∀ i : Int, (Decimal.digits i.natAbs).length ≤ 4300 →
      ∃ shown, (Value.int i).text = .ok shown ∧ Number.parse shown = .ok (some (.int i))) := by
  refine ⟨fun a => Number.parse_eq_some_iff, fun fault => Number.parse_eq_error_iff,
    Number.parse_eq_none_iff, fun i hlength => ⟨Number.decimal i, ?_, Number.parse_decimal hlength⟩⟩
  have hshown : (Value.int i).text = Number.writeInt i := by
    simp only [Value.text, Value.plainText?, Number.write]
  rw [hshown, Number.writeInt_eq_decimal hlength]

theorem numbers_parsed_exactly_hexadecimal :
    Number.parse " 0X1f".toList = .ok (some (.int 31)) ∧
    (Decimal.digits (-31 : Int).natAbs).length ≤ 4300 ∧
    ∃ shown, (Value.int (-31)).text = .ok shown ∧ Number.parse shown = .ok (some (.int (-31))) := by
  have hlength : (Decimal.digits (-31 : Int).natAbs).length ≤ 4300 := by decide
  have hdigits : ∀ d ∈ ['1', 'f'], Text.IsDigitIn 16 d := Text.isDigitIn_of_all (by decide)
  have hspelled : Numeral.RadixSpelledAs (Text.placeValue 16 ['1', 'f']) "0X1f".toList :=
    .intro (.hexadecimal (.inr rfl)) (by decide) hdigits
  obtain ⟨hread, -, -, hshown⟩ := numbers_parsed_exactly " 0X1f".toList
  exact ⟨(hread (.int 31)).2 (.radix hspelled), hlength, hshown (-31) hlength⟩

end LiveValue
