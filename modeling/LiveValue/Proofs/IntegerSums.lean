import LiveValue.Host.Builtin
import LiveValue.Proofs.NumberGrammar

/-!
# Sums of integers

As long as no argument counts as a binary64 number, a sum is exact. It is the sum of what its
arguments count as, in whatever spelling they come, and neither the order of the arguments, nor the
ones that are no numbers, nor the grouping makes a difference.

* `Value.IsNonNumeric`: the values that are no numbers and denote none;
* `Value.CountsAs`: the integer that a value counts as;
* `Value.sum_of_countsAs`: the sum of such values;
* `integers_added_exactly`: what the built-in function makes of them.
-/

namespace LiveValue

namespace Value

/-- A value that is no number and denotes none. -/
inductive IsNonNumeric : Value → Prop
  | undefined : IsNonNumeric .undefined
  | null : IsNonNumeric .null
  | list (items : List Value) : IsNonNumeric (.list items)
  | tuple (items : List Value) : IsNonNumeric (.tuple items)
  | set (items : List Value) : IsNonNumeric (.set items)
  | bytes (octets : List UInt8) : IsNonNumeric (.bytes octets)
  | map (entries : List (Value × Value)) : IsNonNumeric (.map entries)
  | text {s : String} :
      (∀ a : Number, ¬a.SpelledAs (Text.trim s.toList)) → ¬Numeral.TooLong s.toList →
      IsNonNumeric (.str s)

/-- The integer that a value counts as: an integer is itself, a truth value is one or zero, a string
is the integer whose text it is, blanks around it aside, and all that is no number is zero. -/
inductive CountsAs : Value → Int → Prop
  | int (i : Int) : CountsAs (.int i) i
  | bool (b : Bool) : CountsAs (.bool b) (if b then 1 else 0)
  | text {s : String} {i : Int} :
      (Number.int i).SpelledAs (Text.trim s.toList) → CountsAs (.str s) i
  | nothing {v : Value} : v.IsNonNumeric → CountsAs v 0

variable {v : Value} {i : Int} {args args' : List Value} {counts : List Int}

theorem IsNonNumeric.toNumber (h : v.IsNonNumeric) : v.toNumber = .ok (.int 0) := by
  cases h with
  | text hnumber hlong =>
    rw [Value.toNumber, Number.parse_eq_none_iff.2 ⟨hnumber, hlong⟩]
    rfl
  | _ => rfl

/-- A blank string is no number. -/
theorem IsNonNumeric.blank {s : String} (h : Text.trim s.toList = []) : (str s).IsNonNumeric := by
  have hnone : Number.parse s.toList = .ok none := by
    unfold Number.parse
    simp only [h]
    rfl
  obtain ⟨hnumber, hlong⟩ := Number.parse_eq_none_iff.1 hnone
  exact .text hnumber hlong

theorem CountsAs.toNumber (h : v.CountsAs i) : v.toNumber = .ok (.int i) := by
  cases h with
  | int => rfl
  | bool => rfl
  | text hspelled =>
    rw [Value.toNumber, hspelled.parse_eq]
    rfl
  | nothing hnone => exact hnone.toNumber

/-- From any integer on, the arguments add up exactly. -/
theorem foldlM_add_of_countsAs (h : List.Forall₂ CountsAs args counts) (total : Int) :
    args.foldlM (fun total value => do total.add (← value.toNumber)) (Number.int total)
      = .ok (.int (total + counts.sum)) := by
  induction h generalizing total with
  | nil => simp; rfl
  | cons hv _ ih =>
    rw [List.foldlM_cons, hv.toNumber, List.sum_cons, ← Int.add_assoc]
    exact ih _

theorem sum_of_countsAs (h : List.Forall₂ CountsAs args counts) :
    sum args = .ok (.int counts.sum) := by
  rw [sum, foldlM_add_of_countsAs h, Int.zero_add]

/-- Some arguments that are no numbers are left out. -/
inductive Thinned : List Value → List Value → Prop
  | nil : Thinned [] []
  | keep {v : Value} {args rest : List Value} :
      Thinned args rest → Thinned (v :: args) (v :: rest)
  | drop {v : Value} {args rest : List Value} :
      v.IsNonNumeric → Thinned args rest → Thinned (v :: args) rest

theorem IsNonNumeric.count_eq (h : v.IsNonNumeric) (hcount : v.CountsAs i) : i = 0 := by
  have hsame := hcount.toNumber.symm.trans h.toNumber
  cases hsame
  rfl

/-- What is left counts as much as the whole. -/
theorem Thinned.countsAs {rest : List Value} (hthin : Thinned args rest)
    (h : List.Forall₂ CountsAs args counts) :
    ∃ left, List.Forall₂ CountsAs rest left ∧ left.sum = counts.sum := by
  induction hthin generalizing counts with
  | nil => exact ⟨counts, h, rfl⟩
  | keep _ ih =>
    obtain ⟨i, others, hv, hothers, rfl⟩ := List.forall₂_cons_left_iff.1 h
    obtain ⟨left, hleft, hsum⟩ := ih hothers
    exact ⟨i :: left, .cons hv hleft, by rw [List.sum_cons, List.sum_cons, hsum]⟩
  | drop hnone _ ih =>
    obtain ⟨i, others, hv, hothers, rfl⟩ := List.forall₂_cons_left_iff.1 h
    obtain ⟨left, hleft, hsum⟩ := ih hothers
    exact ⟨left, hleft, by rw [List.sum_cons, hnone.count_eq hv, Int.zero_add, hsum]⟩

/-- In another order the arguments count as the same integers in that order. -/
theorem countsAs_of_perm (hperm : args'.Perm args) (h : List.Forall₂ CountsAs args counts) :
    ∃ counts', List.Forall₂ CountsAs args' counts' ∧ counts'.sum = counts.sum := by
  obtain ⟨counts', h', hcounts⟩ := List.perm_comp_forall₂ hperm h
  exact ⟨counts', h', hcounts.sum_eq⟩

end Value

open Value

theorem Builtin.add_of_countsAs {args : List Value} {counts : List Int}
    (h : List.Forall₂ CountsAs args counts) :
    Builtin.add args = fun _ => .done (.int counts.sum) := by
  funext view
  rw [Builtin.add, sum_of_countsAs h]
  rfl

/-- **Integers are added exactly.** Whatever a function sees of an evaluation, the built-in sum of
arguments that count as integers is the sum of these integers. It is the same for the arguments in
any other order, and for what is left of them without some that are no numbers. With further
arguments behind it is the sum of the two sums. -/
theorem integers_added_exactly (args : List Value) (counts : List Int)
    (h : List.Forall₂ CountsAs args counts) :
    (Builtin.add args = fun _ => .done (.int counts.sum)) ∧
    (∀ args', args'.Perm args → Builtin.add args' = Builtin.add args) ∧
    (∀ rest, Thinned args rest → Builtin.add rest = Builtin.add args) ∧
    ∀ more others, List.Forall₂ CountsAs more others →
      ∃ first second : Value,
        (Builtin.add args = fun _ => .done first) ∧ (Builtin.add more = fun _ => .done second) ∧
        Builtin.add (args ++ more) = Builtin.add [first, second] := by
  have hargs := Builtin.add_of_countsAs h
  refine ⟨hargs, fun args' hperm => ?_, fun rest hthin => ?_, fun more others hmore => ?_⟩
  · obtain ⟨counts', h', hsum⟩ := countsAs_of_perm hperm h
    rw [hargs, Builtin.add_of_countsAs h', hsum]
  · obtain ⟨left, hleft, hsum⟩ := hthin.countsAs h
    rw [hargs, Builtin.add_of_countsAs hleft, hsum]
  · have hboth := List.rel_append h hmore
    have htwo : List.Forall₂ CountsAs [.int counts.sum, .int others.sum]
        [counts.sum, others.sum] := .cons (.int _) (.cons (.int _) .nil)
    refine ⟨_, _, hargs, Builtin.add_of_countsAs hmore, ?_⟩
    rw [Builtin.add_of_countsAs hboth, Builtin.add_of_countsAs htwo, List.sum_append,
      List.sum_cons, List.sum_singleton]

theorem integers_added_exactly_spellings :
    (Builtin.add [.int 2, .bool true, .str " 0x10", .str " ", .null] = fun _ => .done (.int 19)) ∧
    (Builtin.add [.null, .str " ", .str " 0x10", .bool true, .int 2] = fun _ => .done (.int 19)) ∧
    (Builtin.add [.int 2, .bool true, .str " 0x10"] = fun _ => .done (.int 19)) := by
  have hdigits : ∀ d ∈ ['1', '0'], Text.IsDigitIn 16 d := Text.isDigitIn_of_all (by decide)
  have hspelled : Numeral.RadixSpelledAs (Text.placeValue 16 ['1', '0']) "0x10".toList :=
    .intro (.hexadecimal (.inl rfl)) (by decide) hdigits
  have hcounts : List.Forall₂ CountsAs
      [.int 2, .bool true, .str " 0x10", .str " ", .null] [2, 1, 16, 0, 0] :=
    .cons (.int 2) (.cons (.bool true) (.cons (.text (.radix hspelled))
      (.cons (.nothing (.blank (by decide))) (.cons (.nothing .null) .nil))))
  have hthin : Thinned [.int 2, .bool true, .str " 0x10", .str " ", .null]
      [.int 2, .bool true, .str " 0x10"] :=
    .keep (.keep (.keep (.drop (.blank (by decide)) (.drop .null .nil))))
  obtain ⟨hsum, hsame, hless, -⟩ := integers_added_exactly _ _ hcounts
  exact ⟨hsum, (hsame _ (List.reverse_perm _)).trans hsum, (hless _ hthin).trans hsum⟩

end LiveValue
