import LiveValue.Descriptor
import LiveValue.Path
import LiveValue.Proofs.ArgumentLists
import LiveValue.Template.Argument

/-!
# Terms

What can be said both as a descriptor and as text: strings, integers, references to data and calls
of functions with such arguments, to any depth. `Term.describe` gives the descriptor and
`Term.write` the text of an argument; `Term.callText` is the text of a call that stands alone.

* `Term.isArgument_write`: a written term stands for itself in an argument list;
* `Term.read_callText`: a written call is read as the function and the written arguments.
-/

namespace LiveValue

open Text (Quote)
open Template

/-- A character that means nothing to arguments and to braces. -/
def isPathChar (c : Char) : Bool := Arguments.isPlain c && c != '{' && c != '}'

/-- A path from the root of the data model that can stand in an argument as it is: without blanks
around it, and without quotes, parentheses, braces and commas. -/
structure PlainPath where
  text : String
  absolute : Path.isAbsolute text = true
  trimmed : Text.trim text.toList = text.toList
  plain : text.toList.all isPathChar = true

/-- Letters, digits and underscores, the first of which is no digit. -/
def isCallName : List Char → Bool
  | [] => false
  | c :: rest => Expression.isNameStart c && rest.all Expression.isNameRest

/-- A name under which a function can be called in a text. -/
structure CallName where
  text : String
  valid : isCallName text.toList = true

/-- An integer with no more digits than may be converted. -/
structure ShortInteger where
  value : Int
  short : (Decimal.digits value.natAbs).length ≤ Number.maxDigits

/-- A string in either kind of quotes, an integer, a reference, or a call. -/
inductive Term where
  | text (quote : Quote) (content : String)
  | integer (i : ShortInteger)
  | binding (path : PlainPath)
  | call (name : CallName) (args : List Term)

namespace Term

/-! ## Two ways to say the same -/

mutual
/-- The descriptor of a term. -/
def describe : Term → Value
  | .text _ content => .str content
  | .integer i => .number (.int i.value)
  | .binding path => Descriptor.pathTo path.text
  | .call name args =>
      .map [(.str "call", .str name.text), (.str "args", .list (describeAll args))]

def describeAll : List Term → List Value
  | [] => []
  | term :: rest => describe term :: describeAll rest
end

/-- A call as it stands alone, from its name and its written arguments. -/
def callText (name : CallName) (args : List (List Char)) : List Char :=
  name.text.toList ++ '(' :: (Arguments.listText args ++ [')'])

mutual
/-- A term as an argument. -/
def write : Term → List Char
  | .text quote content => Text.quoted quote content.toList
  | .integer i => Number.decimal i.value
  | .binding path => '$' :: '{' :: (path.text.toList ++ ['}'])
  | .call name args => '$' :: '{' :: (callText name (writeAll args) ++ ['}'])

def writeAll : List Term → List (List Char)
  | [] => []
  | term :: rest => write term :: writeAll rest
end

mutual
/-- The names of all functions that a term calls. -/
def names : Term → List String
  | .text _ _ | .integer _ | .binding _ => []
  | .call name args => name.text :: namesOfAll args

def namesOfAll : List Term → List String
  | [] => []
  | term :: rest => names term ++ namesOfAll rest
end

theorem describeAll_eq_map (terms : List Term) : describeAll terms = terms.map describe := by
  induction terms with
  | nil => rfl
  | cons term rest ih => rw [describeAll, ih, List.map_cons]

theorem writeAll_eq_map (terms : List Term) : writeAll terms = terms.map write := by
  induction terms with
  | nil => rfl
  | cons term rest ih => rw [writeAll, ih, List.map_cons]

theorem mem_namesOfAll {args : List Term} {term : Term} (hterm : term ∈ args) {called : String}
    (h : called ∈ term.names) : called ∈ namesOfAll args := by
  induction args with
  | nil => cases hterm
  | cons head rest ih =>
    rw [namesOfAll, List.mem_append]
    rcases List.mem_cons.1 hterm with rfl | hrest
    · exact .inl h
    · exact .inr (ih hrest)

/-- What holds of strings, integers and references, and of a call if it holds of all arguments,
holds of every term. -/
@[elab_as_elim]
theorem induct {motive : Term → Prop} (text : ∀ quote content, motive (.text quote content))
    (integer : ∀ i, motive (.integer i)) (binding : ∀ path, motive (.binding path))
    (call : ∀ name args, (∀ term ∈ args, motive term) → motive (.call name args)) :
    ∀ term, motive term
  | .text quote content => text quote content
  | .integer i => integer i
  | .binding path => binding path
  | .call name args => call name args fun term hterm =>
      have := List.sizeOf_lt_of_mem hterm
      induct text integer binding call term
termination_by term => sizeOf term

end Term

/-! ## Names and calls -/

/-- An expression is a call if its text is one. -/
theorem Template.Expression.read_eq_call_iff {body : List Char} {source name : String}
    {args : List String} :
    read body = .call source name args ↔
      ∃ called raw, call? (Text.trim body) = some (called, raw) ∧
        source = String.ofList (Text.trim body) ∧ name = String.ofList called ∧
        args = (Arguments.split raw).map String.ofList := by
  unfold read ofTrimmed
  split
  · next hnil => simp [hnil, call?]
  · next rest hslash =>
    have hname : isNameRest '/' = false := by decide
    simp [hslash, call?, List.span_eq_takeWhile_dropWhile, hname]
  · cases hcall : call? (Text.trim body) with
    | none => simp
    | some result =>
      obtain ⟨called, raw⟩ := result
      simp [Prod.mk.injEq, and_assoc, eq_comm]

namespace CallName

theorem isNameRest_of_isNameStart {c : Char} (h : Expression.isNameStart c = true) :
    Expression.isNameRest c = true := by
  simp only [Expression.isNameStart, Expression.isNameRest, Char.isAlphanum, Bool.or_eq_true] at h ⊢
  exact h.imp_left .inl

theorem isNameStart_of_isDigit {c : Char} (h : c.isDigit = true) :
    Expression.isNameStart c = false := by
  have hletter : c.isAlpha = false := by
    simp only [Char.isDigit, Bool.and_eq_true, decide_eq_true_eq, UInt32.le_iff_toNat_le] at h
    simp only [Char.isAlpha, Char.isUpper, Char.isLower, Bool.or_eq_false_iff,
      Bool.and_eq_false_iff, decide_eq_false_iff_not, UInt32.le_iff_toNat_le]
    simp at h ⊢
    omega
  have hunderscore : c ≠ '_' := by
    rintro rfl
    exact absurd h (by decide)
  rw [Expression.isNameStart, hletter, Bool.false_or, beq_eq_false_iff_ne]
  exact hunderscore

theorem toList_eq (name : CallName) : ∃ c rest, name.text.toList = c :: rest ∧
    Expression.isNameStart c = true ∧ ∀ d ∈ name.text.toList, Expression.isNameRest d = true := by
  have hvalid := name.valid
  cases hname : name.text.toList with
  | nil =>
    rw [hname] at hvalid
    cases hvalid
  | cons c rest =>
    rw [hname, isCallName, Bool.and_eq_true, List.all_eq_true] at hvalid
    obtain ⟨hstart, hrest⟩ := hvalid
    exact ⟨c, rest, rfl, hstart,
      List.forall_mem_cons.2 ⟨isNameRest_of_isNameStart hstart, hrest⟩⟩

theorem isPlain_of_isNameRest {c : Char} (h : Expression.isNameRest c = true) :
    Arguments.isPlain c = true := by
  have hmark : c ≠ '\'' ∧ c ≠ '"' ∧ c ≠ '(' ∧ c ≠ ')' ∧ c ≠ ',' := by
    refine ⟨?_, ?_, ?_, ?_, ?_⟩ <;> rintro rfl <;> exact absurd h (by decide)
  simpa [Arguments.isPlain, Arguments.marks] using hmark

theorem isBlank_of_isNameRest {c : Char} (h : Expression.isNameRest c = true) :
    Text.isBlank c = false := by
  rw [Expression.isNameRest, Bool.or_eq_true, beq_iff_eq] at h
  rcases h with halnum | rfl
  · exact Text.isBlank_of_isAlphanum halnum
  · decide

def applied (name : CallName) (args : List Char) : List Char :=
  name.text.toList ++ '(' :: (args ++ [')'])

theorem trim_applied (name : CallName) (args : List Char) :
    Text.trim (name.applied args) = name.applied args := by
  obtain ⟨c, rest, hname, hstart, -⟩ := name.toList_eq
  have hblank := isBlank_of_isNameRest (isNameRest_of_isNameStart hstart)
  have htext : name.applied args = c :: ((rest ++ '(' :: args) ++ [')']) := by
    rw [applied, hname, List.cons_append, List.append_assoc, List.cons_append]
  rw [htext]
  exact Text.trim_cons_concat hblank (by decide) _

/-- The name ends where the parenthesis opens. -/
theorem span_open (name : CallName) (rest : List Char) :
    (name.text.toList ++ '(' :: rest).span Expression.isNameRest
      = (name.text.toList, '(' :: rest) := by
  obtain ⟨-, -, -, -, hall⟩ := name.toList_eq
  refine Text.span_append hall fun d hd => ?_
  obtain rfl : '(' = d := Option.some.inj hd
  decide

theorem call?_applied (name : CallName) (args : List Char) :
    Expression.call? (name.applied args) = some (name.text.toList, args) := by
  obtain ⟨c, rest, hname, hstart, -⟩ := name.toList_eq
  unfold Expression.call? applied
  rw [name.span_open, hname]
  exact (if_pos ⟨hstart, List.getLast?_concat⟩).trans (by rw [List.dropLast_concat])

/-- A call is read as the function and the arguments that its list is split into. -/
theorem read_applied (name : CallName) (args : List Char) :
    Expression.read (name.applied args)
      = .call (String.ofList (name.applied args)) name.text
        ((Arguments.split args).map String.ofList) := by
  have hcall : Expression.call? (Text.trim (name.applied args))
      = some (name.text.toList, args) := by
    rw [name.trim_applied, name.call?_applied]
  refine Expression.read_eq_call_iff.2 ⟨_, args, hcall, ?_, String.ofList_toList.symm, rfl⟩
  rw [name.trim_applied]

end CallName

/-! ## Terms in argument lists -/

namespace Term

open Arguments (IsArgument Passes)

theorem isArgument_quoted (quote : Quote) (content : List Char) :
    IsArgument (Text.quoted quote content) where
  passes := Arguments.passes_quoted quote content
  nonempty := List.cons_ne_nil _ _
  trimmed := by
    have hblank : Text.isBlank quote.char = false := by cases quote <;> decide
    exact Text.trim_cons_concat hblank hblank _

theorem isArgument_decimal (i : Int) : IsArgument (Number.decimal i) where
  passes := by
    refine Arguments.passes_of_plain (List.all_eq_true.2 fun c hc => ?_)
    rcases Number.eq_minus_or_isDigit_of_mem_decimal hc with rfl | hdigit
    · decide
    · refine CallName.isPlain_of_isNameRest ?_
      rw [Expression.isNameRest, Char.isAlphanum, hdigit, Bool.or_true, Bool.true_or]
  nonempty := Number.decimal_ne_nil i
  trimmed := Number.trim_decimal i

/-- A placeholder whose body passes can stand in an argument list. -/
theorem isArgument_placeholder {body : List Char} (h : Passes 0 body) :
    IsArgument ('$' :: '{' :: (body ++ ['}'])) where
  passes := by
    have hopen : Passes 0 ['$', '{'] := Arguments.passes_of_plain (by decide)
    have hclose : Passes 0 ['}'] := Arguments.passes_of_plain (by decide)
    exact hopen.append (h.append hclose)
  nonempty := List.cons_ne_nil _ _
  trimmed := Text.trim_cons_concat (by decide) (by decide) ('{' :: body)

theorem isArgument_write (term : Term) : IsArgument term.write := by
  induction term using induct with
  | text quote content =>
    rw [write]
    exact isArgument_quoted quote content.toList
  | integer i =>
    rw [write]
    exact isArgument_decimal i.value
  | binding path =>
    rw [write]
    refine isArgument_placeholder (Arguments.passes_of_plain (List.all_eq_true.2 fun c hc => ?_))
    have hpath := List.all_eq_true.1 path.plain c hc
    rw [isPathChar, Bool.and_eq_true, Bool.and_eq_true] at hpath
    exact hpath.1.1
  | call name args ih =>
    rw [write]
    obtain ⟨_, _, _, _, hname⟩ := name.toList_eq
    have hargs : ∀ s ∈ writeAll args, IsArgument s := by
      rw [writeAll_eq_map, List.forall_mem_map]
      exact ih
    have hfront : Passes 0 name.text.toList :=
      Arguments.passes_of_plain
        (List.all_eq_true.2 fun c hc => CallName.isPlain_of_isNameRest (hname c hc))
    exact isArgument_placeholder
      (hfront.append (Arguments.passes_parentheses (Arguments.passes_listText hargs)))

/-! ## Reading what was written -/

theorem split_writeAll (args : List Term) :
    Arguments.split (Arguments.listText (writeAll args)) = writeAll args := by
  rw [writeAll_eq_map]
  exact Arguments.split_listText (List.forall_mem_map.2 fun term _ => isArgument_write term)

theorem callText_eq (name : CallName) (args : List (List Char)) :
    callText name args = name.applied (Arguments.listText args) := rfl

/-- A written call is read as the function and the written arguments. -/
theorem read_callText (name : CallName) (args : List Term) :
    Expression.read (callText name (writeAll args))
      = .call (String.ofList (callText name (writeAll args))) name.text
        ((writeAll args).map String.ofList) := by
  rw [callText_eq, name.read_applied, split_writeAll]

theorem read_path (path : PlainPath) :
    Expression.read path.text.toList = .absolute path.text := by
  have habsolute := path.absolute
  rw [Expression.read, path.trimmed]
  rw [Path.isAbsolute, beq_iff_eq] at habsolute
  obtain ⟨rest, hpath⟩ := List.head?_eq_some_iff.1 habsolute
  rw [hpath, Expression.ofTrimmed, ← hpath, String.ofList_toList]

theorem read_argument {s : List Char} (h : IsArgument s) :
    Argument.read (String.ofList s) = Argument.ofTrimmed s := by
  rw [Argument.read, String.toList_ofList, h.trimmed]

theorem ofTrimmed_placeholder (body : List Char) :
    Argument.ofTrimmed ('$' :: '{' :: (body ++ ['}'])) = .placeholder (String.ofList body) := by
  rw [Argument.ofTrimmed, if_pos List.getLast?_concat, List.dropLast_concat]

/-- What starts neither a placeholder nor a reference is a literal. -/
theorem ofTrimmed_literal {c : Char} {rest : List Char} (hdollar : c ≠ '$') (hslash : c ≠ '/')
    (hname : Expression.isNameStart c = false) :
    Argument.ofTrimmed (c :: rest) = .literal (String.ofList (c :: rest)) := by
  unfold Argument.ofTrimmed
  split
  · next hfront => exact absurd (List.cons.inj hfront).1 hdollar
  · next d tail _ hfront =>
    obtain rfl : c = d := (List.cons.inj hfront).1
    rw [if_neg (by rw [hname]; exact fun h => h.elim hslash (by decide))]
  · next hnil => cases hnil

theorem literalValue_quoted (quote : Quote) (content : List Char) :
    Argument.literalValue (String.ofList (Text.quoted quote content))
      = .ok (.str (String.ofList content)) := by
  have hquoted : Argument.quoted? (Text.quoted quote content) = some content := by
    have hends : (Quote.ofChar? quote.char).isSome = true ∧
        (Text.quoted quote content).getLast? = some quote.char := by
      rw [Quote.ofChar?_char, Text.quoted, ← List.cons_append, List.getLast?_concat]
      exact ⟨rfl, rfl⟩
    exact (if_pos hends).trans (Text.unquote?_quoted quote content)
  rw [Argument.literalValue, String.toList_ofList, hquoted]

theorem ofList_ne {c : Char} {rest : List Char} {word : String}
    (h : word.toList.head? ≠ some c) : String.ofList (c :: rest) ≠ word := by
  rintro rfl
  rw [String.toList_ofList] at h
  exact h rfl

/-- An integer starts in a way in which nothing but a number does. -/
theorem decimal_eq_cons (i : Int) : ∃ c rest, Number.decimal i = c :: rest ∧
    Expression.isNameStart c = false ∧ ∀ d, d ≠ '-' → d.isDigit = false → c ≠ d := by
  obtain ⟨c, rest, hdecimal⟩ := List.exists_cons_of_ne_nil (Number.decimal_ne_nil i)
  have hc : c = '-' ∨ c.isDigit = true :=
    Number.eq_minus_or_isDigit_of_mem_decimal (by rw [hdecimal]; exact List.mem_cons_self)
  refine ⟨c, rest, hdecimal, ?_, ?_⟩
  · rcases hc with rfl | hdigit
    · decide
    · exact CallName.isNameStart_of_isDigit hdigit
  · rintro d hminus hdigit rfl
    rcases hc with rfl | hc
    · exact hminus rfl
    · rw [hdigit] at hc
      cases hc

/-- No word and no quoted text is written like an integer. -/
theorem literalValue_decimal (i : ShortInteger) :
    Argument.literalValue (String.ofList (Number.decimal i.value))
      = .ok (.number (.int i.value)) := by
  obtain ⟨c, rest, hdecimal, -, hc⟩ := decimal_eq_cons i.value
  have hquoted : Argument.quoted? (c :: rest) = none := by
    have hnoquote : Quote.ofChar? c = none := by
      rw [Quote.ofChar?, if_neg (hc _ (by decide) (by decide)),
        if_neg (hc _ (by decide) (by decide))]
    refine if_neg fun hends => ?_
    have hsome := hends.1
    rw [hnoquote] at hsome
    cases hsome
  have hword (word : String) {d : Char} (hd : word.toList.head? = some d) (hne : c ≠ d) :
      String.ofList (c :: rest) ≠ word :=
    ofList_ne fun h => hne (Option.some.inj (h.symm.trans hd))
  have hkeyword : Argument.keyword? (String.ofList (c :: rest)) = none := by
    rw [Argument.keyword?, if_neg (hword "true" rfl (hc _ (by decide) (by decide))),
      if_neg (hword "false" rfl (hc _ (by decide) (by decide))),
      if_neg (hword "null" rfl (hc _ (by decide) (by decide)))]
  have hparse := Number.parse_decimal i.short
  rw [hdecimal] at hparse ⊢
  rw [Argument.literalValue, String.toList_ofList, hquoted, hkeyword]
  dsimp only
  rw [if_neg (ofList_ne (by simp)), hparse]
  rfl

theorem read_text (quote : Quote) (content : String) :
    Argument.read (String.ofList (text quote content).write)
      = .literal (String.ofList (Text.quoted quote content.toList)) := by
  rw [read_argument (isArgument_write _), write, Text.quoted]
  refine ofTrimmed_literal ?_ ?_ ?_ <;> cases quote <;> decide

theorem read_integer (i : ShortInteger) :
    Argument.read (String.ofList (integer i).write)
      = .literal (String.ofList (Number.decimal i.value)) := by
  obtain ⟨c, rest, hdecimal, hstart, hc⟩ := decimal_eq_cons i.value
  rw [read_argument (isArgument_write _), write, hdecimal]
  exact ofTrimmed_literal (hc _ (by decide) (by decide)) (hc _ (by decide) (by decide)) hstart

theorem read_binding (path : PlainPath) :
    Argument.read (String.ofList (binding path).write) = .placeholder path.text := by
  rw [read_argument (isArgument_write _), write, ofTrimmed_placeholder, String.ofList_toList]

theorem read_call (name : CallName) (args : List Term) :
    Argument.read (String.ofList (call name args).write)
      = .placeholder (String.ofList (callText name (writeAll args))) := by
  rw [read_argument (isArgument_write _), write, ofTrimmed_placeholder]

end Term

end LiveValue
