import LiveValue.Proofs.PositionalNotation
import LiveValue.Proofs.StructuredText

/-!
# Numbers inside structured text

What stands around a part in the text of a value with parts does not depend on that part. So the
text of a number in there can be compared with the text that is shown of the number alone: it is the
same, unless the number has an exponent from -9 to -5. Such an exponent has one digit where the
number is shown alone, and a zero in front of it everywhere else.

* `Value.Frame`, `Value.within`: a place inside lists, tuples and mappings, at any depth;
* `Value.text_within`: the text around a place does not depend on what is there;
* `Number.PadsExponent`: the numbers whose texts are different;
* `number_shown_inside`: all other numbers have one text at every place and alone;
* `exponent_padded_inside`: a number with another text inside a list.
-/

namespace LiveValue

namespace Value

/-! ## Places -/

/-- A list, a tuple or a mapping under names, with a place left out. -/
inductive Frame where
  | list (before after : List Value)
  | tuple (before after : List Value)
  | member (before : List (String × Value)) (name : String) (after : List (String × Value))
      (distinct : (before.map Prod.fst ++ name :: after.map Prod.fst).Nodup)

def Frame.around : Frame → Value → Value
  | .list before after, value => .list (before ++ value :: after)
  | .tuple before after, value => .tuple (before ++ value :: after)
  | .member before name after _, value => ofFields (before ++ (name, value) :: after)

/-- Frames within each other, the outermost one first, with a value at the innermost place. -/
def within (frames : List Frame) (value : Value) : Value := frames.foldr Frame.around value

/-- Whatever there is at a place, the same text stands around it, unless nothing can be written
because something at another place cannot. -/
def TextAround (place : Value → Value) : Prop :=
  (∀ value, value.isUndefined = false → (place value).json = .error .digitLimit) ∨
  ∃ before after, ∀ value, value.isUndefined = false →
    (place value).json = value.json.map fun text => before ++ text ++ after

/-! ## Items and members -/

theorem jsonFields_append (xs ys : List (String × Value)) :
    jsonFields (xs ++ ys) = do
      let front ← jsonFields xs
      return front ++ (← jsonFields ys) := by
  induction xs with
  | nil => exact (bind_pure (jsonFields ys)).symm
  | cons member xs ih =>
    obtain ⟨name, value⟩ := member
    rw [List.cons_append, jsonFields, jsonFields, ih]
    split
    · rfl
    · simp only [bind_assoc, pure_bind]
      rfl

/-- What can only fail at the limit on digits fails there or succeeds. -/
theorem limit_or_ok {α : Type} {r : Except Fault α}
    (h : ∀ fault, r = .error fault → fault = .digitLimit) :
    r = .error .digitLimit ∨ ∃ a, r = .ok a := by
  cases r with
  | error fault => exact .inl (congrArg Except.error (h fault rfl))
  | ok a => exact .inr ⟨a, rfl⟩

theorem json_limit_or_ok (value : Value) :
    value.json = .error .digitLimit ∨ ∃ text, value.json = .ok text :=
  limit_or_ok fun _ h => (json_eq_error h).1

theorem items_limit_or_ok (items : List Value) :
    items.mapM json = .error .digitLimit ∨ ∃ texts, items.mapM json = .ok texts := by
  induction items with
  | nil => exact .inr ⟨[], rfl⟩
  | cons x xs ih =>
    rw [List.mapM_cons]
    rcases json_limit_or_ok x with hx | ⟨first, hx⟩
    · exact .inl (by rw [hx]; rfl)
    rcases ih with hxs | ⟨texts, hxs⟩
    · exact .inl (by rw [hx, hxs]; rfl)
    · exact .inr ⟨first :: texts, by rw [hx, hxs]; rfl⟩

theorem jsonFields_limit_or_ok (fields : List (String × Value)) :
    jsonFields fields = .error .digitLimit ∨ ∃ members, jsonFields fields = .ok members := by
  induction fields with
  | nil => exact .inr ⟨[], rfl⟩
  | cons field rest ih =>
    obtain ⟨name, value⟩ := field
    rw [jsonFields]
    split
    · exact ih
    rcases json_limit_or_ok value with hvalue | ⟨text, hvalue⟩
    · exact .inl (by rw [hvalue]; rfl)
    rcases ih with hrest | ⟨members, hrest⟩
    · exact .inl (by rw [hvalue, hrest]; rfl)
    · exact .inr ⟨(name.toList, text) :: members, by rw [hvalue, hrest]; rfl⟩

theorem items_around (before after : List Value) :
    (∀ value, (before ++ value :: after).mapM json = .error .digitLimit) ∨
    ∃ front back, ∀ value, (before ++ value :: after).mapM json
      = value.json.map fun text => front ++ text :: back := by
  rcases items_limit_or_ok before with hbefore | ⟨front, hbefore⟩
  · refine .inl fun value => ?_
    rw [List.mapM_append, hbefore]
    rfl
  rcases items_limit_or_ok after with hafter | ⟨back, hafter⟩
  · refine .inl fun value => ?_
    rw [List.mapM_append, hbefore, List.mapM_cons, hafter]
    rcases json_limit_or_ok value with hvalue | ⟨text, hvalue⟩
    all_goals
      rw [hvalue]
      rfl
  · refine .inr ⟨front, back, fun value => ?_⟩
    rw [List.mapM_append, hbefore, List.mapM_cons, hafter]
    cases value.json <;> rfl

theorem jsonFields_around (before : List (String × Value)) (name : String)
    (after : List (String × Value)) :
    (∀ value, value.isUndefined = false →
      jsonFields (before ++ (name, value) :: after) = .error .digitLimit) ∨
    ∃ front back, ∀ value, value.isUndefined = false →
      jsonFields (before ++ (name, value) :: after)
        = value.json.map fun text => front ++ (name.toList, text) :: back := by
  have hdefined {value : Value} (h : value.isUndefined = false) : ¬value.isUndefined = true := by
    rw [h]
    decide
  rcases jsonFields_limit_or_ok before with hbefore | ⟨front, hbefore⟩
  · refine .inl fun value _ => ?_
    rw [jsonFields_append, hbefore]
    rfl
  rcases jsonFields_limit_or_ok after with hafter | ⟨back, hafter⟩
  · refine .inl fun value hvalue => ?_
    rw [jsonFields_append, hbefore, jsonFields, if_neg (hdefined hvalue), hafter]
    rcases json_limit_or_ok value with hwritten | ⟨text, hwritten⟩
    all_goals
      rw [hwritten]
      rfl
  · refine .inr ⟨front, back, fun value hvalue => ?_⟩
    rw [jsonFields_append, hbefore, jsonFields, if_neg (hdefined hvalue), hafter]
    cases value.json <;> rfl

/-! ## The text around a place -/

theorem joinWithCommas_around (front back : List (List Char)) :
    ∃ before after, ∀ text, joinWithCommas (front ++ text :: back) = before ++ text ++ after := by
  induction front with
  | nil =>
    cases back with
    | nil => exact ⟨[], [], fun text => by simp [Json.joinWithCommas_singleton]⟩
    | cons next more =>
      exact ⟨[], ',' :: joinWithCommas (next :: more), fun text => by
        simp [Json.joinWithCommas_cons_cons]⟩
  | cons first front ih =>
    obtain ⟨before, after, haround⟩ := ih
    refine ⟨first ++ ',' :: before, after, fun text => ?_⟩
    obtain ⟨next, more, hnext⟩ : ∃ next more, front ++ text :: back = next :: more :=
      List.exists_cons_of_ne_nil (by simp)
    rw [List.cons_append, hnext, Json.joinWithCommas_cons_cons, ← hnext, haround]
    simp

theorem textAround_items {before after : List Value} {place : Value → Value}
    (hplace : ∀ value, (place value).json = do
      return '[' :: joinWithCommas (← (before ++ value :: after).mapM json) ++ [']']) :
    TextAround place := by
  rcases items_around before after with hlimit | ⟨front, back, hitems⟩
  · refine .inl fun value _ => ?_
    rw [hplace, hlimit]
    rfl
  · obtain ⟨opening, closing, hjoin⟩ := joinWithCommas_around front back
    refine .inr ⟨'[' :: opening, closing ++ [']'], fun value _ => ?_⟩
    rw [hplace, hitems]
    cases value.json with
    | error fault => rfl
    | ok text =>
      change Except.ok ('[' :: joinWithCommas (front ++ text :: back) ++ [']']) = _
      simp [hjoin, Except.map]

theorem textAround_members {before after : List (String × Value)} {name : String}
    (distinct : (before.map Prod.fst ++ name :: after.map Prod.fst).Nodup) :
    TextAround (Frame.member before name after distinct).around := by
  have hplace (value : Value) : ((Frame.member before name after distinct).around value).json = do
      return writeObject (← jsonFields (before ++ (name, value) :: after)) :=
    json_ofFields (by simpa using distinct)
  rcases jsonFields_around before name after with hlimit | ⟨front, back, hmembers⟩
  · refine .inl fun value hvalue => ?_
    rw [hplace, hlimit value hvalue]
    rfl
  · obtain ⟨opening, closing, hjoin⟩ := joinWithCommas_around
      (front.map fun member => Text.Json.quoted member.1 ++ ':' :: member.2)
      (back.map fun member => Text.Json.quoted member.1 ++ ':' :: member.2)
    refine .inr ⟨'\x7b' :: opening ++ Text.Json.quoted name.toList ++ [':'], closing ++ ['\x7d'],
      fun value hvalue => ?_⟩
    rw [hplace, hmembers value hvalue]
    cases value.json with
    | error fault => rfl
    | ok text =>
      change Except.ok (writeObject (front ++ (name.toList, text) :: back)) = _
      rw [writeObject]
      simp [hjoin, Except.map]

theorem Frame.textAround (frame : Frame) : TextAround frame.around := by
  cases frame with
  | list before after => exact textAround_items fun _ => json_list _
  | tuple before after => exact textAround_items fun _ => json_tuple _
  | member before name after distinct => exact textAround_members distinct

@[simp]
theorem isUndefined_around (frame : Frame) (value : Value) :
    (frame.around value).isUndefined = false := by
  cases frame <;> rfl

theorem isUndefined_within {value : Value} (h : value.isUndefined = false) (frames : List Frame) :
    (within frames value).isUndefined = false := by
  cases frames with
  | nil => exact h
  | cons frame frames => exact isUndefined_around frame _

theorem textAround_within (frames : List Frame) : TextAround (within frames) := by
  induction frames with
  | nil =>
    refine .inr ⟨[], [], fun value _ => ?_⟩
    change value.json = _
    cases value.json <;> simp [Except.map]
  | cons frame frames ih =>
    have hframe (value : Value) : within (frame :: frames) value
        = frame.around (within frames value) := rfl
    rcases frame.textAround with hlimit | ⟨before, after, houter⟩
    · exact .inl fun value hvalue => hlimit _ (isUndefined_within hvalue frames)
    rcases ih with hlimit | ⟨opening, closing, hinner⟩
    · refine .inl fun value hvalue => ?_
      rw [hframe, houter _ (isUndefined_within hvalue frames), hlimit value hvalue]
      rfl
    · refine .inr ⟨before ++ opening, closing ++ after, fun value hvalue => ?_⟩
      rw [hframe, houter _ (isUndefined_within hvalue frames), hinner value hvalue]
      cases value.json <;> simp [Except.map]

theorem text_within {frames : List Frame} (h : frames ≠ []) (value : Value) :
    (within frames value).text = (within frames value).json := by
  obtain ⟨frame, more, rfl⟩ := List.exists_cons_of_ne_nil h
  have hparts : (within (frame :: more) value).plainText? = none := by
    cases frame <;> rfl
  rw [text, hparts]

end Value

/-! ## Numbers alone and inside -/

namespace Decimal

variable {d : Decimal}

/-- An exponent of two digits or more is not padded to two. -/
theorem exponentText_two (h : 10 ≤ (d.point - 1).natAbs) : d.exponentText 2 = d.exponentText 1 := by
  have hlength : 1 < (digits (d.point - 1).natAbs).length := by
    by_contra hshort
    have hlt := (length_digits_le_iff Nat.one_pos).1 (not_lt.1 hshort)
    omega
  have hone : 1 - (digits (d.point - 1).natAbs).length = 0 := by omega
  have htwo : 2 - (digits (d.point - 1).natAbs).length = 0 := by omega
  rw [exponentText, exponentText, hone, htwo]

/-- A negative exponent of one digit gets a zero behind its sign. -/
theorem exponentText_padded (hneg : d.point - 1 < 0) (h : (d.point - 1).natAbs < 10) :
    ∃ front digit, digit.isDigit = true ∧ d.exponentText 1 = front ++ ['e', '-', digit] ∧
      d.exponentText 2 = front ++ ['e', '-', '0', digit] := by
  have hlength : (digits (d.point - 1).natAbs).length = 1 :=
    le_antisymm ((length_digits_le_iff Nat.one_pos).2 h) (length_digits_pos _)
  obtain ⟨digit, hdigit⟩ := List.length_eq_one_iff.1 hlength
  have hmem : digit ∈ digits (d.point - 1).natAbs := by
    rw [hdigit]
    exact List.mem_singleton_self digit
  refine ⟨d.mantissaText, digit, isDigit_of_mem_digits hmem, ?_, ?_⟩
  · rw [exponentText, if_pos hneg, hdigit]
    simp
  · rw [exponentText, if_pos hneg, hdigit]
    simp

end Decimal

namespace Number

/-- Integers, and the finite ones among the binary64 numbers. -/
inductive IsFinite : Number → Prop
  | int (i : Int) : IsFinite (.int i)
  | float (negative : Bool) (rank : Fin Binary64.rankBound) :
      IsFinite (.float (.finite negative rank))

/-- The number is shown with an exponent from -9 to -5. -/
inductive PadsExponent : Number → Prop
  | float {negative : Bool} {rank : Fin Binary64.rankBound} (nonzero : (rank : Nat) ≠ 0)
      (above : -9 < (Binary64.shortest rank).point) (upTo : (Binary64.shortest rank).point ≤ -4) :
      PadsExponent (.float (.finite negative rank))

/-- Any other number has one text, alone and inside structured text. -/
theorem json_eq_write {n : Number} (hfinite : n.IsFinite) (h : ¬n.PadsExponent) :
    n.json = n.write .display := by
  cases hfinite with
  | int i => rfl
  | float negative rank =>
    have hmagnitude : Layout.nested.magnitude rank = Layout.display.magnitude rank := by
      by_cases hzero : (rank : Nat) = 0
      · rw [Layout.magnitude, Layout.magnitude, if_pos hzero, if_pos hzero]
        rfl
      · have hnested : Layout.nested.magnitude rank = _ := Layout.magnitude_shown 2 hzero
        have hdisplay : Layout.display.magnitude rank = _ := Layout.magnitude_shown 1 hzero
        rw [hnested, hdisplay]
        split
        · rfl
        · next hplace =>
          refine Decimal.exponentText_two ?_
          by_contra hshort
          exact h (.float hzero (by omega) (by omega))
    change Except.ok (Layout.nested.write _) = Except.ok (Layout.display.write _)
    rw [Layout.write, Layout.write, hmagnitude]
    rfl

theorem json_of_padsExponent {n : Number} (h : n.PadsExponent) :
    ∃ front digit, digit.isDigit = true ∧ n.write .display = .ok (front ++ ['e', '-', digit]) ∧
      n.json = .ok (front ++ ['e', '-', '0', digit]) := by
  cases h with
  | @float negative rank hzero habove hupTo =>
    obtain ⟨front, digit, hdigit, hone, htwo⟩ :=
      (Binary64.shortest rank).exponentText_padded (by omega) (by omega)
    have hnested : Layout.nested.magnitude rank = _ := Layout.magnitude_shown 2 hzero
    have hdisplay : Layout.display.magnitude rank = _ := Layout.magnitude_shown 1 hzero
    rw [if_neg (by omega), htwo] at hnested
    rw [if_neg (by omega), hone] at hdisplay
    refine ⟨(if negative then ['-'] else []) ++ front, digit, hdigit, ?_, ?_⟩
    · change Except.ok (Layout.display.write _) = _
      rw [Layout.write_display negative hzero, hdisplay, List.append_assoc]
    · have hwrite : Layout.nested.write (.finite negative rank)
          = (if negative then ['-'] else []) ++ Layout.nested.magnitude rank := by
        simp [Layout.write, Layout.nested, Layout.display, hzero]
      change Except.ok (Layout.nested.write _) = _
      rw [hwrite, hnested, List.append_assoc]

/-- The two texts of a number are the same unless it pads its exponent. -/
theorem json_eq_write_iff {n : Number} (hfinite : n.IsFinite) :
    n.json = n.write .display ↔ ¬n.PadsExponent := by
  constructor
  · intro hsame hpads
    obtain ⟨front, digit, -, hshown, hinside⟩ := json_of_padsExponent hpads
    rw [hshown, hinside] at hsame
    cases List.append_cancel_left (Except.ok.inj hsame)
  · exact json_eq_write hfinite

end Number

/-- Two texts, or faults, with the same text around them are the same. -/
theorem map_around_inj {before after : List Char} {r r' : Except Fault (List Char)} :
    (r.map fun text => before ++ text ++ after) = (r'.map fun text => before ++ text ++ after) ↔
      r = r' := by
  constructor
  · intro h
    cases r with
    | error fault =>
      cases r' with
      | error fault' => exact congrArg Except.error (Except.error.inj h)
      | ok text' => cases h
    | ok text =>
      cases r' with
      | error fault' => cases h
      | ok text' =>
        have htexts := List.append_cancel_right (Except.ok.inj h)
        exact congrArg Except.ok (List.append_cancel_left htexts)
  · rintro rfl
    rfl

open Value (within)

/-- **Numbers at any place.** The same text stands around whatever there is at a place inside lists,
tuples and mappings, at any depth. An integer or a finite number has the text there that is shown of
it alone, and so it has as the only item of a list, if and only if it has no exponent from -9 to -5;
such an exponent gets another zero. Where some other part is an integer with too many digits,
nothing is shown at all. -/
theorem number_shown_inside (frames : List Value.Frame) (h : frames ≠ []) :
    ((∀ value, value.isUndefined = false → (within frames value).text = .error .digitLimit) ∨
      ∃ before after,
        (∀ value, value.isUndefined = false →
          (within frames value).text = value.json.map fun text => before ++ text ++ after) ∧
        (∀ n : Number, n.IsFinite → ((within frames (.number n)).text
          = ((Value.number n).text.map fun text => before ++ text ++ after) ↔ ¬n.PadsExponent)) ∧
        ∀ n : Number, n.PadsExponent → ∃ front digit, digit.isDigit = true ∧
          (Value.number n).text = .ok (front ++ ['e', '-', digit]) ∧
          (within frames (.number n)).text
            = .ok (before ++ (front ++ ['e', '-', '0', digit]) ++ after)) ∧
    ∀ n : Number, n.IsFinite → ((Value.list [.number n]).text
      = ((Value.number n).text.map fun text => ['['] ++ text ++ [']']) ↔ ¬n.PadsExponent) := by
  have halone (n : Number) : (Value.number n).text = n.write .display := rfl
  constructor
  · simp only [Value.text_within h]
    refine (Value.textAround_within frames).imp_right ?_
    rintro ⟨before, after, haround⟩
    refine ⟨before, after, haround, fun n hfinite => ?_, fun n hpads => ?_⟩
    · rw [haround _ rfl, Value.json_number, halone, map_around_inj,
        Number.json_eq_write_iff hfinite]
    · obtain ⟨front, digit, hdigit, hshown, hinside⟩ := Number.json_of_padsExponent hpads
      refine ⟨front, digit, hdigit, hshown, ?_⟩
      rw [haround _ rfl, Value.json_number, hinside]
      rfl
  · intro n hfinite
    have hlist : (Value.list [.number n]).text = n.json.map fun text => ['['] ++ text ++ [']'] := by
      change (Value.list [.number n]).json = _
      rw [Value.json_list, List.mapM_cons, Value.json_number]
      cases n.json with
      | error fault => rfl
      | ok text =>
        change Except.ok ('[' :: Value.joinWithCommas [text] ++ [']']) = _
        rw [Json.joinWithCommas_singleton]
        rfl
    rw [hlist, halone, map_around_inj, Number.json_eq_write_iff hfinite]

def chart : List Value.Frame :=
  [.member [("note", .null)] "points" [("unit", .str "m")] (by decide), .list [.int 2] [.undefined]]

/-- The numbers 3/2 and 7 have the texts at that place that are shown of them alone. -/
theorem number_shown_inside_chart :
    (chart ≠ [] ∧ (Number.float (.finite false ⟨4609434218613702656, by decide⟩)).IsFinite ∧
      ¬(Number.float (.finite false ⟨4609434218613702656, by decide⟩)).PadsExponent) ∧
    (within chart (.int 7)).text
      = .ok "\x7b\"note\":null,\"points\":[2,7,null],\"unit\":\"m\"\x7d".toList ∧
    ∃ before after, (within chart (.int 7)).text = .ok (before ++ ['7'] ++ after) ∧
      (within chart (.float (.finite false ⟨4609434218613702656, by decide⟩))).text
        = .ok (before ++ "1.5".toList ++ after) := by
  have hframes : chart ≠ [] := by decide
  have hfinite := Number.IsFinite.float false ⟨4609434218613702656, by decide⟩
  have hplain : ¬(Number.float (.finite false ⟨4609434218613702656, by decide⟩)).PadsExponent := by
    rintro ⟨-, -, hplace⟩
    exact absurd hplace (by decide +kernel)
  have hseven : (within chart (.int 7)).text
      = .ok "\x7b\"note\":null,\"points\":[2,7,null],\"unit\":\"m\"\x7d".toList := by
    decide +kernel
  have hshown : (Value.number (.float (.finite false ⟨4609434218613702656, by decide⟩))).text
      = .ok "1.5".toList := by decide +kernel
  have hdigit : (Value.number (.int 7)).text = .ok ['7'] := by decide +kernel
  refine ⟨⟨hframes, hfinite, hplain⟩, hseven, ?_⟩
  rcases (number_shown_inside chart hframes).1 with hlimit | ⟨before, after, -, hplaced, -⟩
  · have hnone := hlimit (.int 7) rfl
    rw [hseven] at hnone
    cases hnone
  · refine ⟨before, after, ?_, ?_⟩
    · have hwhole := (hplaced (.int 7) (.int 7)).2 nofun
      rw [hdigit] at hwhole
      exact hwhole
    · have hthree := (hplaced _ hfinite).2 hplain
      rw [hshown] at hthree
      exact hthree

/-- The number nearest to 10^-7 has one digit in its exponent alone, and two inside a list. -/
theorem exponent_padded_inside :
    Binary64.shortest 4502148214488346440 = ⟨1, -7⟩ ∧
    (Value.float (.finite false ⟨4502148214488346440, by decide⟩)).text = .ok "1e-7".toList ∧
    (Value.list [.float (.finite false ⟨4502148214488346440, by decide⟩)]).text
      = .ok "[1e-07]".toList := by
  decide +kernel

end LiveValue
