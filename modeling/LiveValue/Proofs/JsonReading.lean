import LiveValue.Proofs.PlainNumbers
import LiveValue.Value.Display
import LiveValue.Value.Json

/-!
# Reading compact JSON

A reader for JSON texts after their grammar, in which numbers are exact, those without point and
exponent are integers, and members keep their order. It may be told that no white space stands
between the parts of a text; what it reads then holds none. What compact writing puts together is
read as what its parts are read as.

* `Json.read?`: the data that a text holds, with white space allowed or not;
* `Json.Reads`: a text is read as some data, whatever may follow it;
* `Json.Reads.integer`, `Json.Reads.decimal`, `Json.Reads.string`, `Json.Reads.array`,
  `Json.Reads.object`: a rule for each way to write.
-/

namespace LiveValue

open Value.Json (isSpace readString? hexUnit? surrogatePair? isNumberChar isStrict)

/-- JSON data. -/
inductive Json where
  | null
  | bool (b : Bool)
  | integer (i : ℤ)
  | decimal (q : ℚ)
  | string (s : String)
  | array (items : List Json)
  | object (members : List (String × Json))

namespace Json

/-! ## The reader -/

/-- A text without leading white space, where white space may stand. -/
def skip (spaced : Bool) (s : List Char) : List Char := if spaced then Value.Json.skipSpace s else s

def words : List (String × Json) := [("null", .null), ("true", .bool true), ("false", .bool false)]

/-- The word at the start of a text, and what follows. -/
def word? (s : List Char) : Option (Json × List Char) :=
  words.findSome? fun (word, value) =>
    if word.toList.isPrefixOf s then some (value, s.drop word.length) else none

/-- A number, which is an integer if it is written as one. -/
def ofNumber (text : List Char) (q : ℚ) : Json :=
  if isWhole text then .integer q.num else .decimal q

def number? (s : List Char) : Option Json := do
  guard (s.head? ≠ some '+')
  let n ← Numeral.read? s
  guard (isStrict n)
  return ofNumber s n.rational

mutual
/-- The data at the start of a text, and what follows. -/
def value? (spaced : Bool) : Nat → List Char → Option (Json × List Char)
  | 0, _ => none
  | fuel + 1, s =>
      match skip spaced s with
      | '"' :: rest => do
          let (content, rest) ← readString? rest
          return (.string (String.ofList content), rest)
      | '[' :: rest =>
          match skip spaced rest with
          | ']' :: rest => some (.array [], rest)
          | rest => do
              let (items, rest) ← items? spaced fuel rest
              return (.array items, rest)
      | '{' :: rest =>
          match skip spaced rest with
          | '}' :: rest => some (.object [], rest)
          | rest => do
              let (members, rest) ← members? spaced fuel rest
              return (.object members, rest)
      | s =>
          match word? s with
          | some found => some found
          | none => do
              let (text, rest) := s.span isNumberChar
              return (← number? text, rest)

/-- The items of an array up to its closing bracket, and what follows. -/
def items? (spaced : Bool) : Nat → List Char → Option (List Json × List Char)
  | 0, _ => none
  | fuel + 1, s => do
      let (item, rest) ← value? spaced fuel s
      match skip spaced rest with
      | ',' :: rest =>
          let (items, rest) ← items? spaced fuel rest
          return (item :: items, rest)
      | ']' :: rest => return ([item], rest)
      | _ => none

/-- The members of an object up to its closing brace, and what follows. -/
def members? (spaced : Bool) : Nat → List Char → Option (List (String × Json) × List Char)
  | 0, _ => none
  | fuel + 1, s =>
      match skip spaced s with
      | '"' :: rest => do
          let (name, rest) ← readString? rest
          match skip spaced rest with
          | ':' :: rest =>
              let (value, rest) ← value? spaced fuel rest
              let member := (String.ofList name, value)
              match skip spaced rest with
              | ',' :: rest =>
                  let (members, rest) ← members? spaced fuel rest
                  return (member :: members, rest)
              | '}' :: rest => return ([member], rest)
              | _ => none
          | _ => none
      | _ => none
end

def read? (spaced : Bool) (s : List Char) : Option Json := do
  let (value, rest) ← value? spaced s.length s
  guard (skip spaced rest).isEmpty
  return value

/-! ## Strings -/

theorem hexUnit?_hex {n : Nat} (h : n < 0x20) :
    ∃ a b c d, Text.hex 4 n = [a, b, c, d] ∧ hexUnit? a b c d = some n := by
  interval_cases n <;> exact ⟨_, _, _, _, rfl, rfl⟩

/-- A unit that is no surrogate stands for a character by itself, whatever follows. -/
theorem readString?_unit {a b c d : Char} {unit : Nat} {rest : List Char}
    (h : hexUnit? a b c d = some unit) (hlow : unit < 0xD800) :
    readString? ('\\' :: 'u' :: a :: b :: c :: d :: rest)
      = (readString? rest).map fun (s, rest) => (Char.ofNat unit :: s, rest) := by
  have hpair (low : Nat) : surrogatePair? unit low = none := by
    unfold surrogatePair?
    exact if_neg fun hhigh => by omega
  have hsingle : (readString? rest >>= fun (s, rest) => pure (Char.ofNat unit :: s, rest))
      = (readString? rest).map fun (s, rest) => (Char.ofNat unit :: s, rest) := by
    cases readString? rest <;> rfl
  rw [readString?, h, ← hsingle]
  simp only [Option.bind_eq_bind, Option.bind_some]
  split
  · next a' b' c' d' more =>
    cases hexUnit? a' b' c' d' with
    | none => rfl
    | some low => simp [hpair]
  · rfl

theorem readString?_shortEscape {c char : Char} {rest : List Char}
    (h : Value.Json.shortEscape? c = some char) :
    readString? ('\\' :: c :: rest)
      = (readString? rest).map fun (s, rest) => (char :: s, rest) := by
  have hunit : c ≠ 'u' := by
    rintro rfl
    cases h
  rw [readString?, h]
  · cases readString? rest <;> rfl
  · intro a b c' d more heq
    exact absurd heq hunit

theorem readString?_plain {c : Char} {rest : List Char} (hquote : c ≠ '"') (hslash : c ≠ '\\')
    (hprint : 0x20 ≤ c.toNat) :
    readString? (c :: rest) = (readString? rest).map fun (s, rest) => (c :: s, rest) := by
  rw [readString?]
  · cases readString? rest <;> simp [hprint]
  · exact hquote
  · intro a b c' d more heq
    exact absurd heq hslash
  · intro a more heq
    exact absurd heq hslash

/-- The written form of a character is read as that character. -/
theorem readString?_escape (c : Char) (rest : List Char) :
    readString? (Text.Json.escape c ++ rest)
      = (readString? rest).map fun (s, rest) => (c :: s, rest) := by
  unfold Text.Json.escape
  split
  case h_8 hquote hslash _ _ _ _ _ =>
    split
    · next hcontrol =>
      obtain ⟨a, b, c', d, hhex, hunit⟩ := hexUnit?_hex hcontrol
      rw [hhex]
      have hread : readString? ('\\' :: 'u' :: a :: b :: c' :: d :: rest) = _ :=
        readString?_unit hunit (by omega)
      rwa [Char.ofNat_toNat] at hread
    · next hprint => exact readString?_plain hquote hslash (by omega)
  all_goals exact readString?_shortEscape rfl

/-- A text in quotes is read as that text, and reading ends behind the closing quote. -/
theorem readString?_quoted (s rest : List Char) :
    readString? (s.flatMap Text.Json.escape ++ '"' :: rest) = some (s, rest) := by
  induction s with
  | nil => rfl
  | cons c s ih =>
    rw [List.flatMap_cons, List.append_assoc, readString?_escape, ih]
    rfl

/-! ## White space -/

variable {spaced : Bool} {fuel : Nat} {rest : List Char}

theorem skip_cons {c : Char} (h : isSpace c = false) : skip spaced (c :: rest) = c :: rest := by
  cases spaced with
  | false => rfl
  | true => simp [skip, Value.Json.skipSpace, h]

/-! ## Numbers -/

theorem isNumberChar_of_isDigit {c : Char} (h : c.isDigit = true) : isNumberChar c = true := by
  simp [isNumberChar, h]

/-- A proper numeral holds nothing but characters of numbers. -/
theorem isNumberChar_of_mem_written {n : Numeral} (h : n.Proper) {c : Char}
    (hc : c ∈ n.written) : isNumberChar c = true := by
  simp only [Numeral.written, List.mem_append] at hc
  rcases hc with ((hsign | hwhole) | hfraction) | hexponent
  · split at hsign
    · rw [List.mem_singleton.1 hsign]
      decide
    · cases hsign
  · exact isNumberChar_of_isDigit (h.whole.2 c hwhole)
  · cases hds : n.fraction with
    | none =>
      rw [hds] at hfraction
      cases hfraction
    | some ds =>
      rw [hds] at hfraction
      rcases List.mem_cons.1 hfraction with rfl | hdigit
      · decide
      · exact isNumberChar_of_isDigit ((h.fraction ds hds).2 c hdigit)
  · cases hparts : n.exponent with
    | none =>
      rw [hparts] at hexponent
      cases hexponent
    | some parts =>
      rw [hparts] at hexponent
      simp only [Numeral.exponentText, List.mem_cons] at hexponent
      rcases hexponent with rfl | hsign | hdigit
      · decide
      · rw [hsign]
        split <;> decide
      · exact isNumberChar_of_isDigit ((h.exponent parts hparts).2 c hdigit)

theorem head?_written {n : Numeral} (h : n.Proper) :
    ∃ c s, n.written = c :: s ∧ (c = '-' ∨ c.isDigit = true) := by
  obtain ⟨d, ds, hwhole⟩ := List.exists_cons_of_ne_nil h.whole.1
  have hd : d.isDigit = true := h.whole.2 d (by rw [hwhole]; exact List.mem_cons_self)
  unfold Numeral.written
  rw [hwhole]
  cases n.negative with
  | true => exact ⟨'-', _, rfl, .inl rfl⟩
  | false => exact ⟨d, _, rfl, .inr hd⟩

theorem isStrict_of_proper {n : Numeral} (h : n.Proper) : isStrict n = true := by
  have hfraction : n.fraction ≠ some [] := fun heq => (h.fraction [] heq).1 rfl
  have hne := h.whole.1
  rcases h.leading with hone | hzero
  · simp [isStrict, hfraction, hne, hone]
  · simp [isStrict, hfraction, hne, hzero]

/-- A text that denotes a number is read as that number. -/
theorem number?_of_denotes {text : List Char} {q : ℚ} (h : Denotes text q) :
    number? text = some (ofNumber text q) := by
  obtain ⟨negative, n, hproper, -, rfl, rfl⟩ := h
  obtain ⟨c, s, hwritten, hc⟩ := head?_written hproper
  have hplus : n.written.head? ≠ some '+' := by
    rw [hwritten]
    rintro ⟨⟩
    rcases hc with hminus | hdigit
    · cases hminus
    · cases hdigit
  simp [number?, hplus, Numeral.read?_written hproper, isStrict_of_proper hproper]

/-! ## What compact writing is read as -/

/-- What follows does not go on with a number. -/
def EndsNumber (rest : List Char) : Prop := ∀ c, rest.head? = some c → isNumberChar c = false

/-- The text is read as the data, whatever follows, with white space allowed or not. It starts with
neither white space nor a closing bracket. -/
structure Reads (text : List Char) (data : Json) : Prop where
  start : ∃ c s, text = c :: s ∧ isSpace c = false ∧ c ≠ ']'
  value? : ∀ spaced fuel rest, text.length ≤ fuel → EndsNumber rest →
    Json.value? spaced fuel (text ++ rest) = some (data, rest)

/-- One level of reading can be done for a text that is not empty. -/
theorem exists_fuel {c : Char} {s : List Char} (h : (c :: s).length ≤ fuel) :
    ∃ more, fuel = more + 1 ∧ s.length ≤ more := by
  rw [List.length_cons] at h
  exact ⟨fuel - 1, by omega, by omega⟩

/-- What starts with neither a quote nor an opening bracket is a word or a number. -/
theorem value?_other {c : Char} {s : List Char} (hspace : isSpace c = false) (hquote : c ≠ '"')
    (hbracket : c ≠ '[') (hbrace : c ≠ '\x7b') :
    value? spaced (fuel + 1) (c :: s) = (word? (c :: s)).or (do
      let (text, rest) := (c :: s).span isNumberChar
      return (← number? text, rest)) := by
  rw [value?, skip_cons hspace]
  split
  · next heq => exact absurd (List.cons.inj heq).1 hquote
  · next heq => exact absurd (List.cons.inj heq).1 hbracket
  · next heq => exact absurd (List.cons.inj heq).1 hbrace
  · cases word? (c :: s) <;> rfl

namespace Reads

theorem null : Reads "null".toList .null := by
  refine ⟨⟨'n', _, rfl, rfl, by decide⟩, fun spaced fuel rest hfuel _ => ?_⟩
  obtain ⟨more, rfl, -⟩ := exists_fuel hfuel
  exact value?_other rfl (by decide) (by decide) (by decide)

theorem bool (b : Bool) : Reads (Value.boolText b) (.bool b) := by
  cases b with
  | true =>
    refine ⟨⟨'t', _, rfl, rfl, by decide⟩, fun spaced fuel rest hfuel _ => ?_⟩
    obtain ⟨more, rfl, -⟩ := exists_fuel hfuel
    exact value?_other rfl (by decide) (by decide) (by decide)
  | false =>
    refine ⟨⟨'f', _, rfl, rfl, by decide⟩, fun spaced fuel rest hfuel _ => ?_⟩
    obtain ⟨more, rfl, -⟩ := exists_fuel hfuel
    exact value?_other rfl (by decide) (by decide) (by decide)

theorem string (s : List Char) : Reads (Text.Json.quoted s) (.string (String.ofList s)) := by
  refine ⟨⟨'"', _, rfl, rfl, by decide⟩, fun spaced fuel rest hfuel _ => ?_⟩
  obtain ⟨more, rfl, -⟩ := exists_fuel hfuel
  have hskip : skip spaced (Text.Json.quoted s ++ rest)
      = '"' :: (s.flatMap Text.Json.escape ++ '"' :: rest) := by
    simp only [Text.Json.quoted, List.cons_append, List.append_assoc, List.nil_append]
    exact skip_cons rfl
  rw [Json.value?, hskip]
  simp [readString?_quoted]

/-- A number ends where no character of a number follows. -/
theorem number {text : List Char} {q : ℚ} (h : Denotes text q) :
    Reads text (ofNumber text q) := by
  have hnumber := number?_of_denotes h
  obtain ⟨negative, n, hproper, -, rfl, rfl⟩ := h
  obtain ⟨c, s, hwritten, hc⟩ := head?_written hproper
  have hspace : isSpace c = false := by
    rcases hc with rfl | hdigit
    · rfl
    · exact Bool.eq_false_of_not_eq_true fun hspace => by
        simp [isSpace] at hspace
        rcases hspace with ((rfl | rfl) | rfl) | rfl <;> cases hdigit
  refine ⟨⟨c, s, hwritten, hspace, ?_⟩, fun spaced fuel rest hfuel hrest => ?_⟩
  · rintro rfl
    rcases hc with hminus | hdigit
    · cases hminus
    · cases hdigit
  · rw [hwritten] at hfuel
    obtain ⟨more, rfl, -⟩ := exists_fuel hfuel
    have hspan : (n.written ++ rest).span isNumberChar = (n.written, rest) :=
      Text.span_append (fun _ => isNumberChar_of_mem_written hproper) hrest
    rw [hwritten] at hspan hnumber ⊢
    have hother {d : Char} (hd : d.isDigit = false) (hminus : d ≠ '-') : c ≠ d := by
      rintro rfl
      rcases hc with heq | hdigit
      · exact hminus heq
      · rw [hd] at hdigit
        cases hdigit
    have hword : word? (c :: (s ++ rest)) = none := by
      have hn : c ≠ 'n' := hother rfl (by decide)
      have ht : c ≠ 't' := hother rfl (by decide)
      have hf : c ≠ 'f' := hother rfl (by decide)
      simp [word?, words, hn.symm, ht.symm, hf.symm]
    have hvalue : Json.value? spaced (more + 1) (c :: (s ++ rest)) = _ :=
      value?_other hspace (hother rfl (by decide)) (hother rfl (by decide))
        (hother rfl (by decide))
    rw [List.cons_append] at hspan ⊢
    rw [hvalue, hword, Option.none_or, hspan]
    simp [hnumber]

theorem integer {text : List Char} {i : ℤ} (h : Denotes text i) (hwhole : isWhole text = true) :
    Reads text (.integer i) := by
  simpa [ofNumber, hwhole] using number h

theorem decimal {text : List Char} {q : ℚ} (h : Denotes text q) (hwhole : ¬isWhole text = true) :
    Reads text (.decimal q) := by
  simpa [ofNumber, hwhole] using number h

end Reads

/-! ## Arrays and objects -/

theorem endsNumber_cons {c : Char} (h : isNumberChar c = false) : EndsNumber (c :: rest) := by
  rintro _ ⟨⟩
  exact h

theorem joinWithCommas_cons_cons (text next : List Char) (more : List (List Char)) :
    Value.joinWithCommas (text :: next :: more)
      = text ++ ',' :: Value.joinWithCommas (next :: more) := by
  simp [Value.joinWithCommas, List.intercalate, List.intersperse]

theorem joinWithCommas_singleton (text : List Char) : Value.joinWithCommas [text] = text := by
  simp [Value.joinWithCommas, List.intercalate]

/-- Items with commas between them are read one after the other. -/
theorem items?_joinWithCommas {texts : List (List Char)} {items : List Json}
    (h : List.Forall₂ Reads texts items) (hne : texts ≠ []) (spaced : Bool) (fuel : Nat)
    (rest : List Char) (hfuel : (Value.joinWithCommas texts).length < fuel) :
    items? spaced fuel (Value.joinWithCommas texts ++ ']' :: rest) = some (items, rest) := by
  induction h generalizing fuel with
  | nil => exact absurd rfl hne
  | @cons text item more others htext hmore ih =>
    obtain ⟨fuel, rfl⟩ := Nat.exists_eq_succ_of_ne_zero (show fuel ≠ 0 by omega)
    cases hmore with
    | nil =>
      rw [joinWithCommas_singleton] at hfuel ⊢
      have hitem := htext.value? spaced fuel (']' :: rest) (by omega) (endsNumber_cons rfl)
      have hskip : skip spaced (']' :: rest) = ']' :: rest := skip_cons rfl
      simp [items?, hitem, hskip]
    | @cons next _ more _ _ _ =>
      rw [joinWithCommas_cons_cons] at hfuel ⊢
      simp only [List.length_append, List.length_cons] at hfuel
      have hothers := ih (by simp) fuel (by omega)
      have hitem := htext.value? spaced fuel
        (',' :: (Value.joinWithCommas (next :: more) ++ ']' :: rest)) (by omega)
        (endsNumber_cons rfl)
      have hskip : skip spaced (',' :: (Value.joinWithCommas (next :: more) ++ ']' :: rest))
          = ',' :: (Value.joinWithCommas (next :: more) ++ ']' :: rest) := skip_cons rfl
      simp [items?, hitem, hskip, hothers]

def memberText (member : List Char × List Char) : List Char :=
  Text.Json.quoted member.1 ++ ':' :: member.2

/-- The text of a member is read as the name and the data. -/
def ReadsMember (written : List Char × List Char) (member : String × Json) : Prop :=
  member.1 = String.ofList written.1 ∧ Reads written.2 member.2

/-- Members with commas between them are read one after the other. -/
theorem members?_joinWithCommas {written : List (List Char × List Char)}
    {members : List (String × Json)} (h : List.Forall₂ ReadsMember written members)
    (hne : written ≠ []) (spaced : Bool) (fuel : Nat) (rest : List Char)
    (hfuel : (Value.joinWithCommas (written.map memberText)).length < fuel) :
    members? spaced fuel (Value.joinWithCommas (written.map memberText) ++ '}' :: rest)
      = some (members, rest) := by
  induction h generalizing fuel with
  | nil => exact absurd rfl hne
  | @cons first member more others hfirst hmore ih =>
    obtain ⟨fuel, rfl⟩ := Nat.exists_eq_succ_of_ne_zero (show fuel ≠ 0 by omega)
    obtain ⟨name, text⟩ := first
    obtain ⟨name', data⟩ := member
    obtain ⟨hname, hvalue⟩ := hfirst
    simp only at hname hvalue
    subst hname
    have hquoted (after : List Char) : skip spaced (memberText (name, text) ++ after)
        = '"' :: (name.flatMap Text.Json.escape ++ '"' :: ':' :: (text ++ after)) := by
      simp only [memberText, Text.Json.quoted, List.cons_append, List.append_assoc, List.nil_append]
      exact skip_cons rfl
    have hcolon (after : List Char) : skip spaced (':' :: after) = ':' :: after := skip_cons rfl
    have htext : text.length < (memberText (name, text)).length := by
      simp only [memberText, List.length_append, List.length_cons]
      omega
    cases hmore with
    | nil =>
      simp only [List.map_cons, List.map_nil, joinWithCommas_singleton] at hfuel ⊢
      have hdata := hvalue.value? spaced fuel ('}' :: rest) (by omega) (endsNumber_cons rfl)
      have hskip : skip spaced ('}' :: rest) = '}' :: rest := skip_cons rfl
      rw [members?, hquoted]
      simp [readString?_quoted, hcolon, hdata, hskip]
    | @cons next _ more _ _ _ =>
      simp only [List.map_cons] at ih hfuel ⊢
      rw [joinWithCommas_cons_cons] at hfuel ⊢
      simp only [List.length_append, List.length_cons] at hfuel
      have hothers := ih (by simp) fuel (by omega)
      generalize Value.joinWithCommas (memberText next :: more.map memberText) = joined at *
      have hdata := hvalue.value? spaced fuel (',' :: (joined ++ '}' :: rest)) (by omega)
        (endsNumber_cons rfl)
      have hskip : skip spaced (',' :: (joined ++ '}' :: rest)) = ',' :: (joined ++ '}' :: rest) :=
        skip_cons rfl
      rw [List.append_assoc, members?, hquoted]
      simp [readString?_quoted, hcolon, hdata, hskip, hothers]

namespace Reads

/-- Items in brackets are read as an array. -/
theorem array {texts : List (List Char)} {items : List Json} (h : List.Forall₂ Reads texts items) :
    Reads ('[' :: Value.joinWithCommas texts ++ [']']) (.array items) := by
  refine ⟨⟨'[', _, rfl, rfl, by decide⟩, fun spaced fuel rest hfuel _ => ?_⟩
  obtain ⟨fuel, rfl, hfuel⟩ := exists_fuel hfuel
  have hskip : skip spaced ('[' :: Value.joinWithCommas texts ++ [']'] ++ rest)
      = '[' :: (Value.joinWithCommas texts ++ ']' :: rest) := by
    simp only [List.cons_append, List.append_assoc, List.nil_append]
    exact skip_cons rfl
  rw [Json.value?, hskip]
  cases h with
  | nil =>
    have hclose : skip spaced (']' :: rest) = ']' :: rest := skip_cons rfl
    simp [Value.joinWithCommas, hclose]
  | @cons text item more others htext hmore =>
    have hitems := items?_joinWithCommas (.cons htext hmore) (by simp) spaced fuel rest
      (by simp at hfuel; omega)
    -- the first item does not look like the end of the array
    obtain ⟨c, s, hc, hspace, hbracket⟩ : ∃ c s,
        Value.joinWithCommas (text :: more) ++ ']' :: rest = c :: s ∧ isSpace c = false ∧
          c ≠ ']' := by
      obtain ⟨c, s, rfl, hspace, hbracket⟩ := htext.start
      cases more with
      | nil => exact ⟨c, _, by rw [joinWithCommas_singleton]; rfl, hspace, hbracket⟩
      | cons next more => exact ⟨c, _, by rw [joinWithCommas_cons_cons]; rfl, hspace, hbracket⟩
    rw [hc] at hitems ⊢
    simp [skip_cons hspace, hbracket, hitems]

/-- Members in braces are read as an object. -/
theorem object {written : List (List Char × List Char)} {members : List (String × Json)}
    (h : List.Forall₂ ReadsMember written members) :
    Reads ('\x7b' :: Value.joinWithCommas (written.map memberText) ++ ['\x7d'])
      (.object members) := by
  refine ⟨⟨'\x7b', _, rfl, rfl, by decide⟩, fun spaced fuel rest hfuel _ => ?_⟩
  obtain ⟨fuel, rfl, hfuel⟩ := exists_fuel hfuel
  have hskip : skip spaced ('\x7b' :: Value.joinWithCommas (written.map memberText) ++ ['\x7d']
      ++ rest) = '\x7b' :: (Value.joinWithCommas (written.map memberText) ++ '\x7d' :: rest) := by
    simp only [List.cons_append, List.append_assoc, List.nil_append]
    exact skip_cons rfl
  rw [Json.value?, hskip]
  cases h with
  | nil =>
    have hclose : skip spaced ('\x7d' :: rest) = '\x7d' :: rest := skip_cons rfl
    simp [Value.joinWithCommas, hclose]
  | @cons first member more others hfirst hmore =>
    have hmembers := members?_joinWithCommas (.cons hfirst hmore) (by simp) spaced fuel rest
      (by simp at hfuel ⊢; omega)
    obtain ⟨s, hs⟩ : ∃ s, Value.joinWithCommas ((first :: more).map memberText) ++ '\x7d' :: rest
        = '"' :: s := by
      cases more with
      | nil => exact ⟨_, by rw [List.map_cons, List.map_nil, joinWithCommas_singleton]; rfl⟩
      | cons next more =>
        exact ⟨_, by rw [List.map_cons, List.map_cons, joinWithCommas_cons_cons]; rfl⟩
    rw [hs] at hmembers ⊢
    have hquote : skip spaced ('"' :: s) = '"' :: s := skip_cons rfl
    simp [hquote, hmembers]

end Reads

/-- A text that is read as data wherever it stands is read as that data on its own. -/
theorem read?_of_reads {text : List Char} {data : Json} (h : Reads text data) (spaced : Bool) :
    read? spaced text = some data := by
  have hvalue := h.value? spaced text.length [] le_rfl nofun
  rw [List.append_nil] at hvalue
  have hskip : skip spaced [] = [] := by cases spaced <;> rfl
  simp [read?, hvalue, hskip]

end Json

end LiveValue
