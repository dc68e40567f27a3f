import LiveValue.Proofs.ShortestDecimals

/-!
# What the texts of numbers denote

Every text that a layout makes of a finite number is a proper numeral: digits on both sides of a
point, no zeros in front, digits behind an exponent. What it denotes does not depend on the layout,
which only says how the digits are set out.

* `Numeral.SpelledAs`: the texts of a numeral, all of which are read as it (`read?_of_spelledAs`);
* `Numeral.read?_written`: a proper numeral is read as what it was written from;
* `Denotes`: a text is a proper numeral of a rational number;
* `Layout.denotes_write`: the texts of a number in all layouts denote the same;
* `Number.denotes_decimal`: the text of an integer denotes the integer.
-/

namespace LiveValue

/-! ## Digits -/

namespace Decimal

theorem ofDigits_append (ds es : List Char) :
    ofDigits (ds ++ es) = 10 ^ es.length * ofDigits ds + ofDigits es := by
  have happend : ofDigits (ds ++ es) = Nat.ofDigitChars 10 es (ofDigits ds) :=
    Nat.ofDigitChars_append 0
  rw [happend, Nat.ofDigitChars_eq_ofDigitChars_zero]
  rfl

theorem ofDigits_zeros (n : Nat) : ofDigits (List.replicate n '0') = 0 :=
  Nat.ofDigitChars_replicate_zero

/-- Zeros in front change nothing. -/
theorem ofDigits_zeros_append (n : Nat) (ds : List Char) :
    ofDigits (List.replicate n '0' ++ ds) = ofDigits ds := by
  simp [ofDigits_append, ofDigits_zeros]

theorem ofDigits_zero_cons (ds : List Char) : ofDigits ('0' :: ds) = ofDigits ds :=
  ofDigits_zeros_append 1 ds

/-- Zeros at the end multiply by ten. -/
theorem ofDigits_append_zeros (ds : List Char) (n : Nat) :
    ofDigits (ds ++ List.replicate n '0') = 10 ^ n * ofDigits ds := by
  simp [ofDigits_append, ofDigits_zeros]

theorem ofDigits_append_zero (ds : List Char) : ofDigits (ds ++ ['0']) = 10 * ofDigits ds :=
  ofDigits_append_zeros ds 1

theorem ofDigits_lt {ds : List Char} (h : ∀ c ∈ ds, c.isDigit = true) :
    ofDigits ds < 10 ^ ds.length := by
  induction ds using List.reverseRecOn with
  | nil => decide
  | append_singleton ds c ih =>
    have hc := h c (by simp)
    have hds := ih fun d hd => h d (by simp [hd])
    have hlast : ofDigits [c] < 10 := by
      simp only [Char.isDigit, Bool.and_eq_true, decide_eq_true_eq, UInt32.le_iff_toNat_le] at hc
      have hcode : c.toNat = c.val.toNat := rfl
      simp [ofDigits]
      simp at hc
      omega
    rw [ofDigits_append, List.length_append, List.length_singleton, pow_succ]
    omega

/-- The digits of a positive number do not start with a zero. -/
theorem head?_digits_ne_zero {n : Nat} (h : n ≠ 0) : (digits n).head? ≠ some '0' := by
  intro hhead
  obtain ⟨rest, hdigits⟩ : ∃ rest, digits n = '0' :: rest := by
    cases hds : digits n with
    | nil => exact absurd hds (digits_ne_nil n)
    | cons c rest =>
      rw [hds] at hhead
      obtain rfl : c = '0' := Option.some.inj hhead
      exact ⟨rest, rfl⟩
  have hvalue : n = ofDigits rest := by
    rw [← ofDigits_digits n, hdigits]
    exact ofDigits_zeros_append 1 rest
  have hrest : ∀ c ∈ rest, c.isDigit = true := fun c hc =>
    isDigit_of_mem_digits (n := n) (by rw [hdigits]; exact List.mem_cons_of_mem _ hc)
  have hlt := ofDigits_lt hrest
  rw [← hvalue] at hlt
  rcases Nat.eq_zero_or_pos rest.length with hzero | hpos
  · rw [hzero] at hlt
    omega
  · -- then fewer digits would do
    have hlength := (length_digits_le_iff hpos).2 hlt
    rw [hdigits, List.length_cons] at hlength
    omega

end Decimal

/-- Digits, at least one of them. -/
def AreDigits (ds : List Char) : Prop := ds ≠ [] ∧ ∀ c ∈ ds, c.isDigit = true

namespace AreDigits

variable {ds es : List Char}

theorem digits (n : Nat) : AreDigits (Decimal.digits n) :=
  ⟨Decimal.digits_ne_nil n, fun _ hc => Decimal.isDigit_of_mem_digits hc⟩

theorem zero : AreDigits ['0'] := digits 0

theorem append (hds : AreDigits ds) (hes : ∀ c ∈ es, c.isDigit = true) : AreDigits (ds ++ es) := by
  refine ⟨by simp [hds.1], fun c hc => ?_⟩
  exact (List.mem_append.1 hc).elim (hds.2 c) (hes c)

theorem isDigit_of_mem_zeros {n : Nat} {c : Char} (h : c ∈ List.replicate n '0') :
    c.isDigit = true := by
  rw [List.eq_of_mem_replicate h]
  decide

theorem zeros_append (n : Nat) (h : AreDigits ds) : AreDigits (List.replicate n '0' ++ ds) := by
  refine ⟨by simp [h.1], fun c hc => ?_⟩
  exact (List.mem_append.1 hc).elim isDigit_of_mem_zeros (h.2 c)

theorem append_zeros (h : AreDigits ds) (n : Nat) : AreDigits (ds ++ List.replicate n '0') :=
  h.append fun _ => isDigit_of_mem_zeros

end AreDigits

/-! ## Proper numerals -/

namespace Numeral

def fractionText : Option (List Char) → List Char
  | none => []
  | some ds => '.' :: ds

/-- The part of a text that holds the exponent, always with a sign. -/
def exponentText : Option (Bool × List Char) → List Char
  | none => []
  | some (negative, ds) => 'e' :: (if negative then '-' else '+') :: ds

def written (n : Numeral) : List Char :=
  (if n.negative then ['-'] else []) ++ n.whole ++ fractionText n.fraction ++
    exponentText n.exponent

/-- Wherever the numeral may have digits it has some, and it has no zeros in front. -/
structure Proper (n : Numeral) : Prop where
  whole : AreDigits n.whole
  leading : n.whole.length = 1 ∨ n.whole.head? ≠ some '0'
  fraction : ∀ ds, n.fraction = some ds → AreDigits ds
  exponent : ∀ e, n.exponent = some e → AreDigits e.2

def rational (n : Numeral) : ℚ :=
  (if n.negative then -1 else 1) *
    (Decimal.ofDigits (n.whole ++ n.fraction.getD []) *
      10 ^ (n.power - (n.fraction.getD []).length))

variable {n : Numeral}

/-- A sign in front of a numeral: a minus sign, a plus sign or nothing. -/
inductive SignSpelledAs : Bool → List Char → Prop
  | minus : SignSpelledAs true ['-']
  | plus : SignSpelledAs false ['+']
  | none : SignSpelledAs false []

/-- An exponent behind a numeral: nothing, or the letter in either case, a sign and digits. -/
inductive ExponentSpelledAs : Option (Bool × List Char) → List Char → Prop
  | none : ExponentSpelledAs none []
  | some {letter : Char} {negative : Bool} {sign ds : List Char} :
      letter = 'e' ∨ letter = 'E' → SignSpelledAs negative sign → AreDigits ds →
      ExponentSpelledAs (some (negative, ds)) (letter :: (sign ++ ds))

/-- The text is one of a numeral: its sign, its digits, with a point where a fraction begins, and
its exponent. There is a digit before the point or behind it. -/
inductive SpelledAs (n : Numeral) : List Char → Prop
  | intro {sign exponent : List Char} :
      SignSpelledAs n.negative sign → AreDigits (n.whole ++ n.fraction.getD []) →
      ExponentSpelledAs n.exponent exponent →
      SpelledAs n (sign ++ n.whole ++ fractionText n.fraction ++ exponent)

/-- Behind a sign, and where there is none, the rest starts with another character. -/
theorem SignSpelledAs.sign_append {negative : Bool} {s rest : List Char} (h : SignSpelledAs negative s)
    (hrest : ∀ c, rest.head? = some c → c ≠ '-' ∧ c ≠ '+') :
    sign (s ++ rest) = (negative, rest) := by
  cases h with
  | minus => rfl
  | plus => rfl
  | none =>
    rw [List.nil_append]
    unfold sign
    split
    · exact absurd rfl (hrest '-' rfl).1
    · exact absurd rfl (hrest '+' rfl).2
    · rfl

theorem ne_sign_of_isDigit {c : Char} (h : c.isDigit = true) : c ≠ '-' ∧ c ≠ '+' := by
  constructor
  · rintro rfl
    cases h
  · rintro rfl
    cases h

namespace ExponentSpelledAs

variable {e : Option (Bool × List Char)} {s : List Char}

theorem eq_of_head? (h : ExponentSpelledAs e s) {c : Char} (hc : s.head? = Option.some c) :
    c = 'e' ∨ c = 'E' := by
  cases h with
  | none => cases hc
  | some hletter _ _ =>
    obtain rfl := Option.some.inj hc
    exact hletter

theorem read (h : ExponentSpelledAs e s) : readExponent? s = Option.some e := by
  cases h with
  | none => rfl
  | @some letter negative sign ds hletter hsign hds =>
    have hsplit : Numeral.sign (sign ++ ds) = (negative, ds) := hsign.sign_append fun c hc =>
      ne_sign_of_isDigit (hds.2 c (List.mem_of_head? hc))
    have hall : ds.all Char.isDigit = true := List.all_eq_true.2 hds.2
    simp [readExponent?, hletter, hsplit, hds.1, hall]

end ExponentSpelledAs

theorem digitRun_append {ds rest : List Char} (hds : ∀ c ∈ ds, c.isDigit = true)
    (hrest : ∀ c, rest.head? = some c → c.isDigit = false) : digitRun (ds ++ rest) = (ds, rest) :=
  Text.span_append hds hrest

theorem ExponentSpelledAs.digitRun_append {e : Option (Bool × List Char)} {ds s : List Char}
    (h : ExponentSpelledAs e s) (hds : ∀ c ∈ ds, c.isDigit = true) :
    digitRun (ds ++ s) = (ds, s) := by
  refine Numeral.digitRun_append hds fun c hc => ?_
  rcases h.eq_of_head? hc with rfl | rfl <;> rfl

/-- Behind the sign, a numeral goes on with a digit or with the point. -/
theorem head?_digits_fractionText {whole : List Char} {fraction : Option (List Char)}
    (hdigits : AreDigits (whole ++ fraction.getD [])) {rest : List Char} {c : Char}
    (hc : (whole ++ fractionText fraction ++ rest).head? = some c) : c.isDigit = true ∨ c = '.' := by
  cases whole with
  | cons d more =>
    obtain rfl := Option.some.inj hc
    exact .inl (hdigits.2 d List.mem_cons_self)
  | nil =>
    cases fraction with
    | none => exact absurd rfl hdigits.1
    | some ds => exact .inr (Option.some.inj hc).symm

/-- Every text of a numeral is read as that numeral. -/
theorem read?_of_spelledAs {s : List Char} (h : n.SpelledAs s) : read? s = some n := by
  obtain ⟨negative, whole, fraction, exponent⟩ := n
  obtain @⟨signText, exponentText, hsign, hdigits, hexponent⟩ := h
  dsimp only at hsign hdigits hexponent ⊢
  have hwhole : ∀ c ∈ whole, c.isDigit = true := fun c hc =>
    hdigits.2 c (List.mem_append_left _ hc)
  have hsplit : sign (signText ++ whole ++ fractionText fraction ++ exponentText)
      = (negative, whole ++ fractionText fraction ++ exponentText) := by
    rw [List.append_assoc, List.append_assoc, ← List.append_assoc whole]
    refine hsign.sign_append fun c hc => ?_
    rcases head?_digits_fractionText hdigits hc with hdigit | rfl
    · exact ne_sign_of_isDigit hdigit
    · decide
  unfold read?
  rw [hsplit]
  cases fraction with
  | none =>
    have hempty : whole.isEmpty = false := by simpa using hdigits.1
    -- what follows the digits does not go on with a point
    have hpoint : ∀ s, exponentText = '.' :: s → False := by
      intro s heq
      rcases hexponent.eq_of_head? (c := '.') (by rw [heq]; rfl) with hdot | hdot <;> cases hdot
    simp only [fractionText, List.append_nil, hexponent.digitRun_append hwhole]
    simp [hempty, hexponent.read]
  | some ds =>
    have hds : ∀ c ∈ ds, c.isDigit = true := fun c hc => hdigits.2 c (List.mem_append_right _ hc)
    have hempty : (whole.isEmpty && ds.isEmpty) = false := by
      simpa [Bool.eq_false_iff] using hdigits.1
    have hrun : digitRun (whole ++ '.' :: ds ++ exponentText)
        = (whole, '.' :: (ds ++ exponentText)) := by
      rw [List.append_assoc]
      refine digitRun_append hwhole fun c hc => ?_
      obtain rfl : '.' = c := Option.some.inj hc
      rfl
    simp only [fractionText, hrun, hexponent.digitRun_append hds]
    simp [hempty, hexponent.read]

theorem spelledAs_written (h : n.Proper) : n.SpelledAs n.written := by
  refine .intro ?_ (h.whole.append ?_) ?_
  · cases n.negative with
    | true => exact .minus
    | false => exact .none
  · cases hfraction : n.fraction with
    | none => nofun
    | some ds => exact (h.fraction ds hfraction).2
  · cases hexponent : n.exponent with
    | none => exact .none
    | some parts =>
      obtain ⟨negative, ds⟩ := parts
      have hds : AreDigits ds := h.exponent _ hexponent
      cases negative with
      | true => exact .some (.inl rfl) .minus hds
      | false => exact .some (.inl rfl) .plus hds

/-- A proper numeral is read as what it was written from. -/
theorem read?_written (h : n.Proper) : read? n.written = some n :=
  read?_of_spelledAs (spelledAs_written h)

end Numeral

/-! ## Texts that denote -/

/-- The text is a proper numeral of a number, with a minus sign or without one. -/
structure DenotesWith (negative : Bool) (text : List Char) (q : ℚ) : Prop where
  intro ::
  numeral : ∃ n : Numeral, n.Proper ∧ n.negative = negative ∧ n.written = text ∧ n.rational = q

def Denotes (text : List Char) (q : ℚ) : Prop := ∃ negative, DenotesWith negative text q

theorem DenotesWith.neg {text : List Char} {q : ℚ} (h : DenotesWith false text q) :
    DenotesWith true ('-' :: text) (-q) := by
  obtain ⟨n, hproper, hnegative, rfl, rfl⟩ := h
  refine ⟨⟨{ n with negative := true }, ?_, rfl, ?_, ?_⟩⟩
  · exact ⟨hproper.whole, hproper.leading, hproper.fraction, hproper.exponent⟩
  · simp [Numeral.written, hnegative]
  · have hpower : ({ n with negative := true } : Numeral).power = n.power := rfl
    simp [Numeral.rational, hnegative, hpower]

/-- Digits alone denote the number that they spell. -/
theorem denotesWith_digits {ds : List Char} (hds : AreDigits ds)
    (hleading : ds.length = 1 ∨ ds.head? ≠ some '0') :
    DenotesWith false ds (Decimal.ofDigits ds) := by
  refine ⟨⟨false, ds, none, none⟩, ⟨hds, hleading, nofun, nofun⟩, rfl, ?_, ?_⟩
  · simp [Numeral.written, Numeral.fractionText, Numeral.exponentText]
  · simp [Numeral.rational, Numeral.power]

/-- Digits before and after a point. -/
theorem denotesWith_point {ds es : List Char} (hds : AreDigits ds)
    (hleading : ds.length = 1 ∨ ds.head? ≠ some '0') (hes : AreDigits es) :
    DenotesWith false (ds ++ '.' :: es)
      (Decimal.ofDigits (ds ++ es) * 10 ^ (-es.length : ℤ)) := by
  refine ⟨⟨false, ds, some es, none⟩, ⟨hds, hleading, ?_, nofun⟩, rfl, ?_, ?_⟩
  · rintro _ ⟨⟩
    exact hes
  · simp [Numeral.written, Numeral.fractionText, Numeral.exponentText]
  · simp [Numeral.rational, Numeral.power]

theorem Number.denotes_decimal (i : Int) : Denotes (decimal i) i := by
  have hleading (n : Nat) : (Decimal.digits n).length = 1 ∨
      (Decimal.digits n).head? ≠ some '0' := by
    rcases Nat.eq_zero_or_pos n with rfl | hpos
    · exact .inl rfl
    · exact .inr (Decimal.head?_digits_ne_zero (by omega))
  have hdigits := denotesWith_digits (.digits i.natAbs) (hleading _)
  rw [Decimal.ofDigits_digits] at hdigits
  unfold decimal
  split
  · next hneg =>
    refine ⟨true, ?_⟩
    have hvalue : (i : ℚ) = -(i.natAbs : ℚ) := by
      rw [Nat.cast_natAbs, abs_of_neg hneg]
      simp
    rw [hvalue]
    exact hdigits.neg
  · next hneg =>
    refine ⟨false, ?_⟩
    have hvalue : (i : ℚ) = (i.natAbs : ℚ) := by
      rw [Nat.cast_natAbs, abs_of_nonneg (by omega)]
    rw [hvalue]
    exact hdigits

/-! ## Layouts -/

namespace Layout

variable {ds : List Char} {point : Int}

/-- Zeros between the point and the digits. -/
theorem denotesWith_point_before (hds : AreDigits ds) (hpoint : point ≤ 0) :
    DenotesWith false ('0' :: '.' :: List.replicate (-point).toNat '0' ++ ds)
      (Decimal.ofDigits ds * 10 ^ (point - ds.length)) := by
  have hpadded := denotesWith_point .zero (.inl rfl) (hds.zeros_append (-point).toNat)
  have hvalue : Decimal.ofDigits (['0'] ++ (List.replicate (-point).toNat '0' ++ ds))
      = Decimal.ofDigits ds :=
    (Decimal.ofDigits_zero_cons _).trans (Decimal.ofDigits_zeros_append _ _)
  have hscale : (-(List.replicate (-point).toNat '0' ++ ds).length : ℤ) = point - ds.length := by
    simp
    omega
  rw [hvalue, hscale] at hpadded
  exact hpadded

/-- The point among the digits. -/
theorem denotesWith_point_inside (hds : AreDigits ds) (hleading : ds.head? ≠ some '0')
    (hpos : 0 < point) (hinside : point < ds.length) :
    DenotesWith false (ds.take point.toNat ++ '.' :: ds.drop point.toNat)
      (Decimal.ofDigits ds * 10 ^ (point - ds.length)) := by
  have htake : AreDigits (ds.take point.toNat) := by
    refine ⟨?_, fun c hc => hds.2 c (List.mem_of_mem_take hc)⟩
    simp [hds.1]
    omega
  have hdrop : AreDigits (ds.drop point.toNat) := by
    refine ⟨?_, fun c hc => hds.2 c (List.mem_of_mem_drop hc)⟩
    simp
    omega
  have hhead : (ds.take point.toNat).head? ≠ some '0' := by
    rw [List.head?_take, if_neg (by omega)]
    exact hleading
  have hsplit := denotesWith_point htake (.inr hhead) hdrop
  have hscale : (-(ds.drop point.toNat).length : ℤ) = point - ds.length := by
    simp
    omega
  rw [List.take_append_drop, hscale] at hsplit
  exact hsplit

/-- Zeros behind the digits, and perhaps a fraction that is nothing but a zero. -/
theorem denotesWith_point_after (marksFloat : Bool) (hds : AreDigits ds)
    (hleading : ds.head? ≠ some '0') (hpoint : (ds.length : ℤ) ≤ point) :
    DenotesWith false (ds ++ List.replicate (point - ds.length).toNat '0' ++
        if marksFloat then ['.', '0'] else [])
      (Decimal.ofDigits ds * 10 ^ (point - ds.length)) := by
  have hzeros := hds.append_zeros (point - ds.length).toNat
  have hhead : (ds ++ List.replicate (point - ds.length).toNat '0').head? ≠ some '0' := by
    rw [List.head?_append_of_ne_nil _ hds.1]
    exact hleading
  have hvalue : (Decimal.ofDigits (ds ++ List.replicate (point - ds.length).toNat '0') : ℚ)
      = Decimal.ofDigits ds * 10 ^ (point - ds.length) := by
    have hpower : (10 : ℚ) ^ (point - ds.length) = 10 ^ (point - ds.length).toNat := by
      rw [← zpow_natCast, Int.toNat_of_nonneg (by omega)]
    rw [Decimal.ofDigits_append_zeros, hpower]
    push_cast
    ring
  cases marksFloat with
  | true =>
    have hfraction := denotesWith_point hzeros (.inr hhead) .zero
    have hlength : (-(['0'] : List Char).length : ℤ) = -1 := rfl
    have hten (q : ℚ) : (10 : Nat) * q * 10 ^ (-1 : ℤ) = q := by
      push_cast
      ring
    rw [Decimal.ofDigits_append_zero, hlength, Nat.cast_mul, hvalue, hten] at hfraction
    exact hfraction
  | false =>
    have hplain := denotesWith_digits hzeros (.inr hhead)
    rw [hvalue] at hplain
    simpa using hplain

/-- Wherever the point stands, the digits denote the same, scaled by the power of ten that takes the
point there. -/
theorem denotesWith_positional (layout : Layout) (hds : AreDigits ds)
    (hleading : ds.head? ≠ some '0') (point : Int) :
    DenotesWith false (layout.positional ds point)
      (Decimal.ofDigits ds * 10 ^ (point - ds.length)) := by
  unfold positional
  split
  · next hbefore => exact denotesWith_point_before hds hbefore
  · next hpos =>
    split
    · next hinside => exact denotesWith_point_inside hds hleading (not_le.1 hpos) hinside
    · next hafter => exact denotesWith_point_after layout.marksFloat hds hleading (not_lt.1 hafter)

/-- One digit before the point, and an exponent that makes up for it. -/
theorem denotesWith_exponential (layout : Layout) (hds : AreDigits ds) (point : Int) :
    DenotesWith false (layout.exponential ds point)
      (Decimal.ofDigits ds * 10 ^ (point - ds.length)) := by
  obtain ⟨hne, hdigits⟩ := hds
  obtain ⟨c, rest, rfl⟩ := List.exists_cons_of_ne_nil hne
  let size := Decimal.digits (point - 1).natAbs
  let fraction := if rest = [] then none else some rest
  let exponent := List.replicate (layout.exponentWidth - size.length) '0' ++ size
  have hlength : (fraction.getD []).length = rest.length := by
    cases rest <;> rfl
  have hpower : (if decide (point - 1 < 0) = true then -(Decimal.ofDigits exponent : ℤ)
      else Decimal.ofDigits exponent) = point - 1 := by
    rw [Decimal.ofDigits_zeros_append, Decimal.ofDigits_digits]
    split
    · next hneg =>
      simp at hneg
      omega
    · next hneg =>
      simp at hneg
      omega
  refine ⟨⟨false, [c], fraction, some (decide (point - 1 < 0), exponent)⟩, ?_, rfl, ?_, ?_⟩
  · refine ⟨⟨by simp, ?_⟩, .inl rfl, ?_, ?_⟩
    · intro d hd
      rw [List.mem_singleton.1 hd]
      exact hdigits c List.mem_cons_self
    · intro es hes
      cases rest with
      | nil => cases hes
      | cons d more =>
        cases hes
        exact ⟨by simp, fun e he => hdigits e (List.mem_cons_of_mem c he)⟩
    · rintro _ ⟨⟩
      exact (AreDigits.digits _).zeros_append _
  · cases rest <;>
      simp [Numeral.written, Numeral.fractionText, Numeral.exponentText, exponential, fraction,
        exponent, size]
  · have hwhole : [c] ++ fraction.getD [] = c :: rest := by
      cases rest <;> rfl
    simp only [Numeral.rational, Numeral.power, hpower, hwhole, hlength]
    have hscale : point - 1 - (rest.length : ℤ) = point - ((c :: rest).length : ℤ) := by
      simp
      omega
    rw [hscale]
    simp

/-- The text of a magnitude denotes its shortest decimal. -/
theorem denotesWith_magnitude (layout : Layout) (rank : Nat) :
    DenotesWith false (layout.magnitude rank) (Binary64.shortest rank).rational := by
  unfold magnitude
  split
  · next hzero =>
    subst hzero
    have hvalue : (Binary64.shortest 0).rational = 0 := by
      simp [Binary64.shortest, Decimal.rational]
    rw [hvalue]
    split
    · have hpoint := denotesWith_point .zero (.inl rfl) .zero
      simpa [Decimal.ofDigits] using hpoint
    · have hdigits := denotesWith_digits .zero (.inl rfl)
      simpa [Decimal.ofDigits] using hdigits
  · next hrank =>
    have hcoefficient := Binary64.coefficient_shortest_ne_zero hrank
    have hpositional := denotesWith_positional layout (.digits (Binary64.shortest rank).coefficient)
      (Decimal.head?_digits_ne_zero hcoefficient) (Binary64.shortest rank).point
    have hexponential := denotesWith_exponential layout
      (.digits (Binary64.shortest rank).coefficient) (Binary64.shortest rank).point
    have hvalue : (Decimal.ofDigits (Decimal.digits (Binary64.shortest rank).coefficient) : ℚ)
        * 10 ^ ((Binary64.shortest rank).point
          - (Decimal.digits (Binary64.shortest rank).coefficient).length)
        = (Binary64.shortest rank).rational := by
      rw [Decimal.ofDigits_digits, Decimal.point, add_sub_cancel_left]
      rfl
    rw [hvalue] at hpositional hexponential
    dsimp only
    split
    · exact hpositional
    · split
      · exact hpositional
      · exact hexponential

/-- Whatever the layout, the text of a number denotes its shortest decimal, with its sign. -/
theorem denotes_write (layout : Layout) (negative : Bool) (rank : Fin Binary64.rankBound) :
    Denotes (layout.write (.finite negative rank))
      ((if negative then -1 else 1) * (Binary64.shortest rank).rational) := by
  have hmagnitude := layout.denotesWith_magnitude rank
  cases negative with
  | false => exact ⟨false, by simpa [write] using hmagnitude⟩
  | true =>
    by_cases hsign : (layout.marksFloat || rank.val != 0) = true
    · exact ⟨true, by simpa [write, hsign] using hmagnitude.neg⟩
    · -- the sign is left out at a zero
      have hrank : (rank : Nat) = 0 := by
        by_contra hne
        simp [hne] at hsign
      have hzero : (Binary64.shortest rank).rational = 0 := by
        simp [hrank, Binary64.shortest, Decimal.rational]
      rw [hzero] at hmagnitude ⊢
      exact ⟨false, by simpa [write, hsign] using hmagnitude⟩

end Layout

end LiveValue
