import LiveValue.Path
import LiveValue.Proofs.Integers
import LiveValue.Template.Argument
import LiveValue.Value.Display

/-!
# Conversions that fail

Four operations on data can fail: a literal may be a numeral of too many digits, a path may lead to
a list with a position of too many digits, an integer may have too many digits to be shown, and a
sum may bring together a binary64 number and an integer that is too large for one. Nothing else
about any text, path or value makes an operation fail.

* `Number.parse_eq_error`, `Path.resolve_eq_error`, `Value.text_eq_error`, `Value.sum_eq_error`: what
  the operation was given where it failed, and with which fault.
-/

namespace LiveValue

/-! ## Steps that can fail -/

section

variable {ε α β : Type}

theorem bind_eq_error {m : Except ε α} {f : α → Except ε β} {e : ε} :
    m >>= f = .error e ↔ m = .error e ∨ ∃ a, m = .ok a ∧ f a = .error e := by
  cases m with
  | error e' => simp [Bind.bind, Except.bind]
  | ok a => simp [Bind.bind, Except.bind]

theorem bind_eq_ok {m : Except ε α} {f : α → Except ε β} {b : β} :
    m >>= f = .ok b ↔ ∃ a, m = .ok a ∧ f a = .ok b := by
  cases m with
  | error e => simp [Bind.bind, Except.bind]
  | ok a => simp [Bind.bind, Except.bind]

theorem bind_pure_eq_error {m : Except ε α} {f : α → β} {e : ε} :
    (m >>= fun a => pure (f a)) = .error e ↔ m = .error e := by
  rw [bind_eq_error]
  constructor
  · rintro (h | ⟨a, -, hpure⟩)
    · exact h
    · cases hpure
  · exact Or.inl

theorem map_eq_error {m : Except ε α} {f : α → β} {e : ε} : m.map f = .error e ↔ m = .error e := by
  cases m <;> simp [Except.map]

theorem map_eq_ok {m : Except ε α} {f : α → β} {b : β} :
    m.map f = .ok b ↔ ∃ a, m = .ok a ∧ f a = b := by
  cases m <;> simp [Except.map]

/-- A loop fails at one of its items, after those before it went well. -/
theorem foldlM_eq_error {f : β → α → Except ε β} {b : β} {items : List α} {e : ε}
    (h : items.foldlM f b = .error e) :
    ∃ before x after b', items = before ++ x :: after ∧ before.foldlM f b = .ok b' ∧
      f b' x = .error e := by
  induction items generalizing b with
  | nil => cases h
  | cons x rest ih =>
    rw [List.foldlM_cons, bind_eq_error] at h
    rcases h with h | ⟨next, hnext, h⟩
    · exact ⟨[], x, rest, b, rfl, rfl, h⟩
    · obtain ⟨before, y, after, b', rfl, hbefore, hy⟩ := ih h
      refine ⟨x :: before, y, after, b', rfl, ?_, hy⟩
      rw [List.foldlM_cons, hnext]
      exact hbefore

theorem mapM_eq_error {f : α → Except ε β} {items : List α} {e : ε}
    (h : items.mapM f = .error e) : ∃ x ∈ items, f x = .error e := by
  induction items with
  | nil => cases h
  | cons x rest ih =>
    rw [List.mapM_cons, bind_eq_error] at h
    rcases h with h | ⟨_, _, h⟩
    · exact ⟨x, List.mem_cons_self, h⟩
    · obtain ⟨y, hy, hfails⟩ := ih (bind_pure_eq_error.1 h)
      exact ⟨y, List.mem_cons_of_mem _ hy, hfails⟩

end

/-! ## Digits -/

namespace Decimal

/-- A run of decimal digits that is longer than what is converted. -/
def TooLong (digits : List Char) : Prop :=
  (∀ c ∈ digits, c.isDigit = true) ∧ Number.maxDigits < digits.length

theorem lt_length_digits {n count : Nat} (hcount : 0 < count) (h : Nat.pow 10 count ≤ n) :
    count < (digits n).length := by
  by_contra hshort
  have hsmall := (Nat.length_toDigits_le_iff (by decide) hcount).1 (Nat.not_lt.1 hshort)
  exact Nat.not_le.2 hsmall h

end Decimal

namespace Number

/-- An integer with more digits than are converted. -/
def TooLong (i : Int) : Prop := Decimal.TooLong (Decimal.digits i.natAbs)

theorem writeInt_eq_error {i : Int} {fault : Fault} (h : writeInt i = .error fault) :
    fault = .digitLimit ∧ TooLong i := by
  unfold writeInt at h
  split at h
  · next hlarge =>
    cases h
    exact ⟨rfl, fun c hc => Decimal.isDigit_of_mem_digits hc,
      Decimal.lt_length_digits (by decide) hlarge⟩
  · cases h

theorem write_eq_error {layout : Layout} {n : Number} {fault : Fault}
    (h : n.write layout = .error fault) : fault = .digitLimit ∧ ∃ i, n = .int i ∧ TooLong i := by
  cases n with
  | int i =>
    obtain ⟨hfault, hlong⟩ := writeInt_eq_error h
    exact ⟨hfault, i, rfl, hlong⟩
  | float x => cases h

theorem json_eq_error {n : Number} {fault : Fault} (h : n.json = .error fault) :
    fault = .digitLimit ∧ ∃ i, n = .int i ∧ TooLong i := by
  cases n with
  | int i =>
    obtain ⟨hfault, hlong⟩ := writeInt_eq_error h
    exact ⟨hfault, i, rfl, hlong⟩
  | float x => cases x <;> cases h

end Number

/-! ## Numerals -/

namespace Numeral

/-- A decimal integer with more digits than are converted, within blanks. -/
def TooLong (text : List Char) : Prop :=
  ∃ sign digits, (sign = [] ∨ sign = ['-'] ∨ sign = ['+']) ∧ Text.trim text = sign ++ digits ∧
    Decimal.TooLong digits

theorem sign_append (s : List Char) :
    ∃ written, (written = [] ∨ written = ['-'] ∨ written = ['+']) ∧ s = written ++ (sign s).2 := by
  unfold sign
  split
  · exact ⟨['-'], .inr (.inl rfl), rfl⟩
  · exact ⟨['+'], .inr (.inr rfl), rfl⟩
  · exact ⟨[], .inl rfl, rfl⟩

theorem digitRun_eq (s : List Char) :
    digitRun s = (s.takeWhile Char.isDigit, s.dropWhile Char.isDigit) :=
  List.span_eq_takeWhile_dropWhile ..

theorem readExponent?_eq_none {s : List Char} (h : readExponent? s = some none) : s = [] := by
  cases s with
  | nil => rfl
  | cons e rest =>
    simp only [readExponent?] at h
    split at h
    · split at h <;> cases h
    · cases h

/-- A numeral without a point and an exponent is a sign and digits. -/
theorem read?_of_integer {s : List Char} {n : Numeral} (h : read? s = some n)
    (hfraction : n.fraction = none) (hexponent : n.exponent = none) :
    (sign s).2 = n.whole ∧ ∀ c ∈ n.whole, c.isDigit = true := by
  unfold read? at h
  simp only [digitRun_eq, Option.bind_eq_bind, Option.bind_eq_some_iff] at h
  obtain ⟨_, -, exponent, hread, hn⟩ := h
  cases hn
  obtain rfl : exponent = none := hexponent
  refine ⟨?_, fun c hc => List.mem_takeWhile_imp hc⟩
  split at hread
  · next rest hpoint =>
    rw [hpoint] at hfraction
    cases hfraction
  · have hrest : (sign s).2.dropWhile Char.isDigit = [] := readExponent?_eq_none hread
    calc (sign s).2
        = (sign s).2.takeWhile Char.isDigit ++ (sign s).2.dropWhile Char.isDigit :=
          List.takeWhile_append_dropWhile.symm
      _ = (sign s).2.takeWhile Char.isDigit := by rw [hrest, List.append_nil]

theorem value_eq_error {n : Numeral} {fault : Fault} (h : n.value = .error fault) :
    fault = .digitLimit ∧ n.fraction = none ∧ n.exponent = none ∧
      Number.maxDigits < n.whole.length := by
  unfold value at h
  split at h
  · next hinteger =>
    rw [Bool.and_eq_true, Option.isNone_iff_eq_none, Option.isNone_iff_eq_none] at hinteger
    split at h
    · next hlong =>
      cases h
      exact ⟨rfl, hinteger.1, hinteger.2, hlong⟩
    · cases h
  · cases h

end Numeral

theorem Number.parse_eq_error {text : List Char} {fault : Fault} (h : parse text = .error fault) :
    fault = .digitLimit ∧ Numeral.TooLong text := by
  unfold parse at h
  dsimp only at h
  split at h
  · next n hread =>
    obtain ⟨hfault, hfraction, hexponent, hlong⟩ := Numeral.value_eq_error (map_eq_error.1 h)
    obtain ⟨hwhole, hdigits⟩ := Numeral.read?_of_integer hread hfraction hexponent
    obtain ⟨written, hsign, htext⟩ := Numeral.sign_append (Text.trim text)
    rw [hwhole] at htext
    exact ⟨hfault, written, n.whole, hsign, htext, hdigits, hlong⟩
  · split at h <;> cases h

/-! ## Literals -/

namespace Template.Argument

theorem literalValue_eq_error {text : String} {fault : Fault}
    (h : literalValue text = .error fault) :
    fault = .digitLimit ∧ Numeral.TooLong text.toList := by
  unfold literalValue at h
  split at h
  · cases h
  · split at h
    · cases h
    · split at h
      · cases h
      · rcases bind_eq_error.1 h with hparse | ⟨n, -, hvalue⟩
        · exact Number.parse_eq_error hparse
        · cases n <;> cases hvalue

/-- A text that starts and ends with the same quote has a first character, so that there is
something to unquote. -/
theorem quoted?_of_quotes {s : List Char} {c : Char} (hfirst : s.head? = some c)
    (hquote : (Text.Quote.ofChar? c).isSome = true) (hlast : s.getLast? = some c) :
    (quoted? s).isSome = true := by
  cases s with
  | nil => cases hfirst
  | cons d rest =>
    obtain rfl : d = c := Option.some.inj hfirst
    rw [quoted?, if_pos ⟨hquote, hlast⟩]
    rfl

end Template.Argument

/-! ## Paths -/

namespace Path

/-- A path leads from a value to a list and on with a position of too many digits. -/
def TooLong (source : Value) (path : String) : Prop :=
  ∃ before segment after items, segments path = before ++ segment :: after ∧
    (walk source before = .ok (.list items) ∨ walk source before = .ok (.tuple items)) ∧
    Decimal.TooLong segment.toList

theorem position?_eq_error {segment : String} {fault : Fault}
    (h : position? segment = .error fault) :
    fault = .digitLimit ∧ Decimal.TooLong segment.toList := by
  unfold position? at h
  dsimp only at h
  split at h
  · cases h
  · next hdigits =>
    rw [Bool.or_eq_true, not_or, Bool.not_eq_true', Bool.not_eq_false, List.all_eq_true] at hdigits
    split at h
    · next hlong =>
      cases h
      exact ⟨rfl, hdigits.2, hlong⟩
    · cases h

theorem step_eq_error {cursor : Value} {segment : String} {fault : Fault}
    (h : step cursor segment = .error fault) :
    fault = .digitLimit ∧ Decimal.TooLong segment.toList ∧
      ∃ items, cursor = .list items ∨ cursor = .tuple items := by
  have hposition {items : List Value} (h : step (.list items) segment = .error fault) :
      position? segment = .error fault := by
    rw [step] at h
    rcases bind_eq_error.1 h with h | ⟨i, -, hvalue⟩
    · exact h
    · cases i <;> cases hvalue
  unfold step at h
  split at h
  · cases h
  · next items =>
    obtain ⟨hfault, hlong⟩ := position?_eq_error (hposition h)
    exact ⟨hfault, hlong, items, .inl rfl⟩
  · next items =>
    obtain ⟨hfault, hlong⟩ := position?_eq_error (hposition h)
    exact ⟨hfault, hlong, items, .inr rfl⟩
  · cases h

theorem resolve_eq_error {dataModel scope : Value} {path : String} {fault : Fault}
    (h : resolve dataModel scope path = .error fault) :
    fault = .digitLimit ∧ TooLong (source dataModel scope path) path := by
  obtain ⟨before, segment, after, cursor, hsegments, hwalk, hstep⟩ := foldlM_eq_error h
  obtain ⟨hfault, hlong, items, hcursor⟩ := step_eq_error hstep
  refine ⟨hfault, before, segment, after, items, hsegments, ?_, hlong⟩
  rcases hcursor with rfl | rfl
  · exact .inl hwalk
  · exact .inr hwalk

end Path

/-! ## Values -/

namespace Value

/-- A value is an integer or has it among its parts, at any depth. -/
inductive Holds (i : Int) : Value → Prop
  | self : Holds i (.int i)
  | list {items : List Value} {x : Value} : x ∈ items → Holds i x → Holds i (.list items)
  | tuple {items : List Value} {x : Value} : x ∈ items → Holds i x → Holds i (.tuple items)
  | set {items : List Value} {x : Value} : x ∈ items → Holds i x → Holds i (.set items)
  | key {entries : List (Value × Value)} {k v : Value} :
      (k, v) ∈ entries → Holds i k → Holds i (.map entries)
  | member {entries : List (Value × Value)} {k v : Value} :
      (k, v) ∈ entries → Holds i v → Holds i (.map entries)

/-- Somewhere in a value is an integer with more digits than are converted. -/
def HoldsTooLong (value : Value) : Prop := ∃ i, Number.TooLong i ∧ value.Holds i

namespace HoldsTooLong

variable {entries : List (Value × Value)} {entry : Value × Value} {k v : Value}

theorem of_key (hentry : (k, v) ∈ entries) (h : k.HoldsTooLong) : (map entries).HoldsTooLong := by
  obtain ⟨i, hlong, hholds⟩ := h
  exact ⟨i, hlong, .key hentry hholds⟩

theorem of_member (hentry : (k, v) ∈ entries) (h : v.HoldsTooLong) :
    (map entries).HoldsTooLong := by
  obtain ⟨i, hlong, hholds⟩ := h
  exact ⟨i, hlong, .member hentry hholds⟩

theorem map_cons (h : (map entries).HoldsTooLong) : (map (entry :: entries)).HoldsTooLong := by
  obtain ⟨i, hlong, hholds⟩ := h
  cases hholds with
  | key hentry hk => exact of_key (List.mem_cons_of_mem _ hentry) ⟨i, hlong, hk⟩
  | member hentry hv => exact of_member (List.mem_cons_of_mem _ hentry) ⟨i, hlong, hv⟩

end HoldsTooLong

theorem plainText?_eq_error {value : Value} {fault : Fault}
    (h : value.plainText? = some (.error fault)) : fault = .digitLimit ∧ value.HoldsTooLong := by
  cases value with
  | number n =>
    obtain ⟨hfault, i, rfl, hlong⟩ := Number.write_eq_error (Option.some.inj h)
    exact ⟨hfault, i, hlong, .self⟩
  | undefined | null | bool | str => cases Option.some.inj h
  | list | tuple | set | bytes | map => cases h

mutual
/-- Names for keys bring no integers in. -/
theorem holds_of_withNames {i : Int} :
    ∀ (value : Value) {named : Value}, value.withNames = .ok named → named.Holds i → value.Holds i
  | .list items, named, h, hholds => by
    rw [withNames] at h
    obtain ⟨xs, hitems, hnamed⟩ := bind_eq_ok.1 h
    cases hnamed
    cases hholds with
    | list hx hheld =>
      obtain ⟨y, hy, hheld⟩ := holds_of_itemsWithNames items hitems _ hx hheld
      exact .list hy hheld
  | .tuple items, named, h, hholds => by
    rw [withNames] at h
    obtain ⟨xs, hitems, hnamed⟩ := bind_eq_ok.1 h
    cases hnamed
    cases hholds with
    | tuple hx hheld =>
      obtain ⟨y, hy, hheld⟩ := holds_of_itemsWithNames items hitems _ hx hheld
      exact .tuple hy hheld
  | .set items, named, h, hholds => by
    rw [withNames] at h
    obtain ⟨xs, hitems, hnamed⟩ := bind_eq_ok.1 h
    cases hnamed
    cases hholds with
    | set hx hheld =>
      obtain ⟨y, hy, hheld⟩ := holds_of_itemsWithNames items hitems _ hx hheld
      exact .set hy hheld
  | .map entries, named, h, hholds => by
    rw [withNames] at h
    obtain ⟨members, hmembers, hnamed⟩ := bind_eq_ok.1 h
    cases hnamed
    cases hholds with
    | key hentry hheld =>
      obtain ⟨member, -, hmember⟩ := List.mem_map.1 hentry
      cases hmember
      cases hheld
    | member hentry hheld =>
      obtain ⟨member, hwritten, hmember⟩ := List.mem_map.1 hentry
      cases hmember
      obtain ⟨fresh, hfresh, hsame⟩ := (Entries.of_mem_writeAll hwritten).resolve_right nofun
      exact holds_of_membersWithNames entries hmembers fresh hfresh (hsame ▸ hheld)
  | .undefined, named, h, hholds | .null, named, h, hholds | .bool _, named, h, hholds
  | .number _, named, h, hholds | .str _, named, h, hholds | .bytes _, named, h, hholds => by
    cases h
    exact hholds

theorem holds_of_itemsWithNames {i : Int} :
    ∀ (items : List Value) {named : List Value}, itemsWithNames items = .ok named →
      ∀ x ∈ named, x.Holds i → ∃ y ∈ items, y.Holds i
  | [], named, h => by
    cases h
    exact fun x hx => absurd hx List.not_mem_nil
  | x :: rest, named, h => by
    rw [itemsWithNames] at h
    obtain ⟨first, hfirst, h⟩ := bind_eq_ok.1 h
    obtain ⟨more, hmore, hnamed⟩ := bind_eq_ok.1 h
    cases hnamed
    intro y hy hheld
    rcases List.mem_cons.1 hy with rfl | hy
    · exact ⟨x, List.mem_cons_self, holds_of_withNames x hfirst hheld⟩
    · obtain ⟨z, hz, hheld⟩ := holds_of_itemsWithNames rest hmore y hy hheld
      exact ⟨z, List.mem_cons_of_mem _ hz, hheld⟩

theorem holds_of_membersWithNames {i : Int} :
    ∀ (entries : List (Value × Value)) {named : List (String × Value)},
      membersWithNames entries = .ok named →
      ∀ member ∈ named, member.2.Holds i → (map entries).Holds i
  | [], named, h => by
    cases h
    exact fun member hmember => absurd hmember List.not_mem_nil
  | (key, value) :: rest, named, h => by
    have hrest {more : List (String × Value)} (hmore : membersWithNames rest = .ok more)
        {member : String × Value} (hmember : member ∈ more) (hheld : member.2.Holds i) :
        (map ((key, value) :: rest)).Holds i := by
      cases holds_of_membersWithNames rest hmore member hmember hheld with
      | key hentry hheld => exact .key (List.mem_cons_of_mem _ hentry) hheld
      | member hentry hheld => exact .member (List.mem_cons_of_mem _ hentry) hheld
    -- what comes after the name of the first member, however the name was found
    have hnamed {name : List Char} (h : (do
        let member ← value.withNames
        return (String.ofList name, member) :: (← membersWithNames rest)) = Except.ok named)
        {member : String × Value} (hmember : member ∈ named) (hheld : member.2.Holds i) :
        (map ((key, value) :: rest)).Holds i := by
      obtain ⟨first, hfirst, h⟩ := bind_eq_ok.1 h
      obtain ⟨more, hmore, hmembers⟩ := bind_eq_ok.1 h
      cases hmembers
      rcases List.mem_cons.1 hmember with rfl | hmember
      · exact .member List.mem_cons_self (holds_of_withNames value hfirst hheld)
      · exact hrest hmore hmember hheld
    intro member hmember hheld
    rw [membersWithNames] at h
    split at h
    · exact hrest h hmember hheld
    · obtain ⟨name, h⟩ : ∃ name : List Char, (do
          let member ← value.withNames
          return (String.ofList name, member) :: (← membersWithNames rest)) = Except.ok named := by
        split at h
        · exact (bind_eq_ok.1 h).imp fun name hname => hname.2
        · exact (bind_eq_ok.1 h).imp fun name hname => hname.2
      exact hnamed h hmember hheld
end

theorem HoldsTooLong.of_withNames {value named : Value} (h : value.withNames = .ok named)
    (hholds : named.HoldsTooLong) : value.HoldsTooLong := by
  obtain ⟨i, hlong, hholds⟩ := hholds
  exact ⟨i, hlong, holds_of_withNames value h hholds⟩

mutual
theorem written_eq_error {fault : Fault} :
    ∀ value : Value, value.written = .error fault → fault = .digitLimit ∧ value.HoldsTooLong
  | .undefined, h | .null, h | .bool _, h | .str _, h | .bytes _, h => by
    rw [written] at h
    cases h
  | .number n, h => by
    rw [written] at h
    obtain ⟨hfault, i, rfl, hlong⟩ := Number.json_eq_error h
    exact ⟨hfault, i, hlong, .self⟩
  | .list items, h => by
    rw [written, bind_pure_eq_error] at h
    obtain ⟨hfault, x, hx, i, hlong, hholds⟩ := writtenItems_eq_error items h
    exact ⟨hfault, i, hlong, .list hx hholds⟩
  | .tuple items, h => by
    rw [written, bind_pure_eq_error] at h
    obtain ⟨hfault, x, hx, i, hlong, hholds⟩ := writtenItems_eq_error items h
    exact ⟨hfault, i, hlong, .tuple hx hholds⟩
  | .set items, h => by
    rw [written, bind_pure_eq_error] at h
    obtain ⟨hfault, x, hx, i, hlong, hholds⟩ := writtenItems_eq_error items h
    exact ⟨hfault, i, hlong, .set hx hholds⟩
  | .map entries, h => by
    rw [written, bind_pure_eq_error] at h
    exact writtenMembers_eq_error entries h

theorem writtenItems_eq_error {fault : Fault} :
    ∀ items : List Value, writtenItems items = .error fault →
      fault = .digitLimit ∧ ∃ x ∈ items, x.HoldsTooLong
  | [], h => by
    rw [writtenItems] at h
    cases h
  | x :: rest, h => by
    rw [writtenItems, bind_eq_error] at h
    rcases h with h | ⟨_, -, h⟩
    · obtain ⟨hfault, hx⟩ := written_eq_error x h
      exact ⟨hfault, x, List.mem_cons_self, hx⟩
    · obtain ⟨hfault, y, hy, hholds⟩ := writtenItems_eq_error rest (bind_pure_eq_error.1 h)
      exact ⟨hfault, y, List.mem_cons_of_mem _ hy, hholds⟩

theorem writtenMembers_eq_error {fault : Fault} :
    ∀ entries : List (Value × Value), writtenMembers entries = .error fault →
      fault = .digitLimit ∧ (map entries).HoldsTooLong
  | [], h => by
    rw [writtenMembers] at h
    cases h
  | (key, value) :: rest, h => by
    have hrest (h : writtenMembers rest = .error fault) :
        fault = .digitLimit ∧ (map ((key, value) :: rest)).HoldsTooLong := by
      obtain ⟨hfault, hholds⟩ := writtenMembers_eq_error rest h
      exact ⟨hfault, hholds.map_cons⟩
    cases key with
    | str name =>
      rw [writtenMembers] at h
      rcases bind_eq_error.1 h with hvalue | ⟨_, -, h⟩
      · obtain ⟨hfault, hholds⟩ := written_eq_error value hvalue
        exact ⟨hfault, .of_member List.mem_cons_self hholds⟩
      · exact hrest (bind_pure_eq_error.1 h)
    | _ =>
      rw [writtenMembers] at h
      · exact hrest h
      · nofun
end

mutual
theorem withNames_eq_error {fault : Fault} :
    ∀ value : Value, value.withNames = .error fault → fault = .digitLimit ∧ value.HoldsTooLong
  | .list items, h => by
    rw [withNames, bind_pure_eq_error] at h
    obtain ⟨hfault, x, hx, i, hlong, hholds⟩ := itemsWithNames_eq_error items h
    exact ⟨hfault, i, hlong, .list hx hholds⟩
  | .tuple items, h => by
    rw [withNames, bind_pure_eq_error] at h
    obtain ⟨hfault, x, hx, i, hlong, hholds⟩ := itemsWithNames_eq_error items h
    exact ⟨hfault, i, hlong, .tuple hx hholds⟩
  | .set items, h => by
    rw [withNames, bind_pure_eq_error] at h
    obtain ⟨hfault, x, hx, i, hlong, hholds⟩ := itemsWithNames_eq_error items h
    exact ⟨hfault, i, hlong, .set hx hholds⟩
  | .map entries, h => by
    rw [withNames, bind_pure_eq_error] at h
    exact membersWithNames_eq_error entries h
  | .undefined, h | .null, h | .bool _, h | .number _, h | .str _, h | .bytes _, h => by
    cases h

theorem itemsWithNames_eq_error {fault : Fault} :
    ∀ items : List Value, itemsWithNames items = .error fault →
      fault = .digitLimit ∧ ∃ x ∈ items, x.HoldsTooLong
  | [], h => by
    cases h
  | x :: rest, h => by
    rw [itemsWithNames, bind_eq_error] at h
    rcases h with h | ⟨_, -, h⟩
    · obtain ⟨hfault, hx⟩ := withNames_eq_error x h
      exact ⟨hfault, x, List.mem_cons_self, hx⟩
    · obtain ⟨hfault, y, hy, hholds⟩ := itemsWithNames_eq_error rest (bind_pure_eq_error.1 h)
      exact ⟨hfault, y, List.mem_cons_of_mem _ hy, hholds⟩

theorem membersWithNames_eq_error {fault : Fault} :
    ∀ entries : List (Value × Value), membersWithNames entries = .error fault →
      fault = .digitLimit ∧ (map entries).HoldsTooLong
  | [], h => by
    cases h
  | (key, value) :: rest, h => by
    have hhead : (key, value) ∈ (key, value) :: rest := List.mem_cons_self
    have hrest (h : membersWithNames rest = .error fault) :
        fault = .digitLimit ∧ (map ((key, value) :: rest)).HoldsTooLong := by
      obtain ⟨hfault, hholds⟩ := membersWithNames_eq_error rest h
      exact ⟨hfault, hholds.map_cons⟩
    -- what comes after the name of the first member, however the name was found
    have hnamed {name : List Char} (h : (do
        let member ← value.withNames
        return (String.ofList name, member) :: (← membersWithNames rest)) = Except.error fault) :
        fault = .digitLimit ∧ (map ((key, value) :: rest)).HoldsTooLong := by
      rcases bind_eq_error.1 h with hvalue | ⟨_, -, h⟩
      · obtain ⟨hfault, hholds⟩ := withNames_eq_error value hvalue
        exact ⟨hfault, .of_member hhead hholds⟩
      · exact hrest (bind_pure_eq_error.1 h)
    rw [membersWithNames] at h
    split at h
    · exact hrest h
    · split at h
      · next shown hshown =>
        rcases bind_eq_error.1 h with hname | ⟨_, -, h⟩
        · obtain ⟨hfault, hholds⟩ := plainText?_eq_error (hname ▸ hshown)
          exact ⟨hfault, .of_key hhead hholds⟩
        · exact hnamed h
      · rcases bind_eq_error.1 h with hname | ⟨_, -, h⟩
        · rcases bind_eq_error.1 hname with hkey | ⟨named, hkey, hname⟩
          · obtain ⟨hfault, hholds⟩ := withNames_eq_error key hkey
            exact ⟨hfault, .of_key hhead hholds⟩
          · obtain ⟨hfault, hholds⟩ := written_eq_error named hname
            exact ⟨hfault, .of_key hhead (hholds.of_withNames hkey)⟩
        · exact hnamed h
end

theorem json_eq_error {value : Value} {fault : Fault} (h : value.json = .error fault) :
    fault = .digitLimit ∧ value.HoldsTooLong := by
  rcases bind_eq_error.1 h with h | ⟨named, hnamed, h⟩
  · exact withNames_eq_error value h
  · obtain ⟨hfault, hholds⟩ := written_eq_error named h
    exact ⟨hfault, hholds.of_withNames hnamed⟩

/-- Only an integer with too many digits keeps a value from being shown. -/
theorem text_eq_error {value : Value} {fault : Fault} (h : value.text = .error fault) :
    fault = .digitLimit ∧ value.HoldsTooLong := by
  unfold text at h
  split at h
  · next shown hshown => exact plainText?_eq_error (h ▸ hshown)
  · exact json_eq_error h

/-! ## Sums -/

/-- A binary64 number and an integer that is too large for one, in either order. -/
inductive Incompatible : Number → Number → Prop
  | floatInt {x : Binary64} {i : Int} : Binary64.ofInt? i = none → Incompatible (.float x) (.int i)
  | intFloat {i : Int} {x : Binary64} : Binary64.ofInt? i = none → Incompatible (.int i) (.float x)

/-- Where a sum of values fails: one of them is a numeral of too many digits, or it meets a sum of
those before it that it cannot be added to. -/
inductive SumFails (values : List Value) : Fault → Prop
  | numeral {s : String} : .str s ∈ values → Numeral.TooLong s.toList → SumFails values .digitLimit
  | overflow {before after : List Value} {value : Value} {total n : Number} :
      values = before ++ value :: after → sum before = .ok total → value.toNumber = .ok n →
      Incompatible total n → SumFails values .outOfRange

theorem toNumber_eq_error {value : Value} {fault : Fault} (h : value.toNumber = .error fault) :
    fault = .digitLimit ∧ ∃ s, value = .str s ∧ Numeral.TooLong s.toList := by
  cases value with
  | str s =>
    obtain ⟨hfault, hlong⟩ := Number.parse_eq_error (bind_pure_eq_error.1 h)
    exact ⟨hfault, s, rfl, hlong⟩
  | _ => cases h

theorem toFloat_int_eq_error {i : Int} {fault : Fault}
    (h : (Number.int i).toFloat = .error fault) :
    fault = .outOfRange ∧ Binary64.ofInt? i = none := by
  unfold Number.toFloat at h
  dsimp only at h
  split at h
  · cases h
  · next hnone =>
    cases h
    exact ⟨rfl, hnone⟩

theorem add_eq_error {a b : Number} {fault : Fault} (h : a.add b = .error fault) :
    fault = .outOfRange ∧ Incompatible a b := by
  cases a with
  | int i =>
    cases b with
    | int j => cases h
    | float y =>
      rcases bind_eq_error.1 h with hint | ⟨_, -, hrest⟩
      · obtain ⟨hfault, hnone⟩ := toFloat_int_eq_error hint
        exact ⟨hfault, .intFloat hnone⟩
      · cases hrest
  | float x =>
    cases b with
    | int j =>
      have hint := bind_pure_eq_error.1 h
      obtain ⟨hfault, hnone⟩ := toFloat_int_eq_error hint
      exact ⟨hfault, .floatInt hnone⟩
    | float y => cases h

theorem sum_eq_error {values : List Value} {fault : Fault} (h : sum values = .error fault) :
    SumFails values fault := by
  obtain ⟨before, value, after, total, hvalues, hbefore, hfails⟩ := foldlM_eq_error h
  rcases bind_eq_error.1 hfails with hnumber | ⟨n, hn, hadd⟩
  · obtain ⟨rfl, s, rfl, hlong⟩ := toNumber_eq_error hnumber
    exact .numeral (by rw [hvalues]; exact List.mem_append_right _ List.mem_cons_self) hlong
  · obtain ⟨rfl, hincompatible⟩ := add_eq_error hadd
    exact .overflow hvalues hbefore hn hincompatible

end Value

end LiveValue
