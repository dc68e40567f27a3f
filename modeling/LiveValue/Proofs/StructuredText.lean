import LiveValue.Proofs.JsonReading
import LiveValue.Proofs.WrittenParts

/-!
# Structured text loses nothing

What a value with parts is shown as is compact JSON, and reading it gives the data that the value
tells: members and items in their order, strings and integers as they are, `null` where an item is
undefined or a number is not finite, and no member where one is undefined. An integral number below
10^21 is read as the integer of its shortest digits, and every other number as what the exact layout
denotes.

* `Value.told`: the data that a value tells;
* `Value.IsData`: the values that text can hold;
* `Value.written_of_isData`: a value at any depth is read as what it tells, whatever follows it;
* `Value.text_told`: the text of a value with parts is read as what the value tells.
-/

namespace LiveValue

/-! ## What values tell -/

/-- What the digits of a magnitude denote, with zeros behind them up to the point. -/
def Binary64.paddedDigits (rank : Nat) : Nat :=
  Decimal.ofDigits (Decimal.digits (shortest rank).coefficient ++
    List.replicate (shortest rank).exponent.toNat '0')

/-- What a number is read as, where it is written exactly. -/
def Binary64.exactly (x : Binary64) : ℚ :=
  (Numeral.read? (Layout.exact.write x)).elim 0 (·.rational)

/-- The data that a number tells. -/
def Number.told : Number → Json
  | .int i => .integer i
  | .float (.finite negative rank) =>
      if Binary64.IsPlain rank then
        .integer (if negative then -Binary64.paddedDigits rank else Binary64.paddedDigits rank)
      else .decimal (Binary64.exactly (.finite negative rank))
  | .float _ => .null

namespace Value

mutual
def told : Value → Json
  | .undefined | .null => .null
  | .bool b => .bool b
  | .number n => n.told
  | .str s => .string s
  | .bytes octets => .string (String.ofList (Text.Literal.bytes octets))
  | .list items | .tuple items | .set items => .array (toldItems items)
  | .map entries => .object (toldMembers entries)

def toldItems : List Value → List Json
  | [] => []
  | x :: xs => told x :: toldItems xs

/-- The members under names, undefined ones left out. -/
def toldMembers : List (Value × Value) → List (String × Json)
  | [] => []
  | (.str name, value) :: rest =>
      if value.isUndefined then toldMembers rest else (name, told value) :: toldMembers rest
  | _ :: rest => toldMembers rest
end

/-- The values that text can hold: integers have no more digits than are converted, and every key of
a mapping is a name that occurs once. -/
inductive IsData : Value → Prop
  | undefined : IsData .undefined
  | null : IsData .null
  | bool {b : Bool} : IsData (.bool b)
  | int {i : Int} (h : (Decimal.digits i.natAbs).length ≤ Number.maxDigits) : IsData (.int i)
  | float {x : Binary64} : IsData (.float x)
  | str {s : String} : IsData (.str s)
  | bytes {octets : List UInt8} : IsData (.bytes octets)
  | list {items : List Value} (h : ∀ item ∈ items, IsData item) : IsData (.list items)
  | tuple {items : List Value} (h : ∀ item ∈ items, IsData item) : IsData (.tuple items)
  | set {items : List Value} (h : ∀ item ∈ items, IsData item) : IsData (.set items)
  | map {fields : List (String × Value)} (hnames : (fields.map Prod.fst).Nodup)
      (hvalues : ∀ field ∈ fields, IsData field.2) : IsData (ofFields fields)

end Value

/-! ## Numbers -/

namespace Number

theorem writeInt_eq_decimal {i : Int} (h : (Decimal.digits i.natAbs).length ≤ maxDigits) :
    writeInt i = .ok (decimal i) := by
  cases hwritten : writeInt i with
  | error fault => exact absurd (writeInt_eq_error hwritten).2.2 (not_lt.2 h)
  | ok text =>
    unfold writeInt at hwritten
    split at hwritten
    · cases hwritten
    · exact hwritten.symm

theorem isWhole_decimal (i : Int) : isWhole (decimal i) = true := by
  have hdigits := isWhole_of_digits (AreDigits.digits i.natAbs).2
  rw [decimal, isWhole_append, isWhole_sign, hdigits]
  rfl

/-- Inside structured text, a number is read as what it tells. -/
theorem reads_nested (negative : Bool) (rank : Fin Binary64.rankBound) :
    Json.Reads (Layout.nested.write (.finite negative rank))
      (Number.told (.float (.finite negative rank))) := by
  have hdenotes := Layout.nested.denotes_write negative rank
  by_cases hplain : Binary64.IsPlain rank
  · have hexponent := Binary64.shortest_exponent_nonneg hplain.1
    have hvalue : (Binary64.shortest rank).rational = Binary64.paddedDigits rank :=
      Decimal.rational_of_nonneg hexponent
    rw [hvalue] at hdenotes
    rw [told, if_pos hplain]
    refine Json.Reads.integer ?_ ((Layout.isWhole_nested_iff negative rank).2 hplain)
    cases negative with
    | true => simpa using hdenotes
    | false => simpa using hdenotes
  · have hexactly : Binary64.exactly (.finite negative rank)
        = (if negative then -1 else 1) * (Binary64.shortest rank).rational := by
      obtain ⟨sign, n, hproper, -, hwritten, hrational⟩ := Layout.exact.denotes_write negative rank
      rw [Binary64.exactly, ← hwritten, Numeral.read?_written hproper]
      exact hrational
    rw [told, if_neg hplain, hexactly]
    exact Json.Reads.decimal hdenotes fun hwhole =>
      hplain ((Layout.isWhole_nested_iff negative rank).1 hwhole)

end Number

/-! ## Items and members -/

namespace Value

def WrittenAsTold (v : Value) : Prop := ∃ s, v.json = .ok s ∧ Json.Reads s v.told

theorem items_written {items : List Value} (h : ∀ item ∈ items, item.WrittenAsTold) :
    ∃ texts, items.mapM json = .ok texts ∧ List.Forall₂ Json.Reads texts (toldItems items) := by
  induction items with
  | nil => exact ⟨[], rfl, .nil⟩
  | cons x xs ih =>
    obtain ⟨first, hfirst, hreads⟩ := h x List.mem_cons_self
    obtain ⟨texts, htexts, hall⟩ := ih fun item hitem => h item (List.mem_cons_of_mem x hitem)
    refine ⟨first :: texts, ?_, .cons hreads hall⟩
    rw [List.mapM_cons, hfirst, htexts]
    rfl

theorem written_of_items {v : Value} {items : List Value}
    (hjson : v.json = (do return '[' :: joinWithCommas (← items.mapM json) ++ [']']))
    (htold : v.told = .array (toldItems items)) (h : ∀ item ∈ items, item.WrittenAsTold) :
    v.WrittenAsTold := by
  obtain ⟨texts, htexts, hall⟩ := items_written h
  rw [WrittenAsTold, hjson, htold, htexts]
  exact ⟨_, rfl, Json.Reads.array hall⟩

theorem fields_written {fields : List (String × Value)}
    (h : ∀ field ∈ fields, field.2.WrittenAsTold) :
    ∃ members, jsonFields fields = .ok members ∧
      List.Forall₂ Json.ReadsMember members (toldMembers (named fields)) := by
  induction fields with
  | nil => exact ⟨[], rfl, .nil⟩
  | cons field rest ih =>
    obtain ⟨name, value⟩ := field
    obtain ⟨text, htext, hreads⟩ := h (name, value) List.mem_cons_self
    obtain ⟨members, hmembers, hall⟩ := ih fun field hfield =>
      h field (List.mem_cons_of_mem _ hfield)
    have hnamed : named ((name, value) :: rest) = (.str name, value) :: named rest := rfl
    rw [hnamed, jsonFields, toldMembers]
    split
    · exact ⟨members, hmembers, hall⟩
    · refine ⟨(name.toList, text) :: members, ?_, .cons ⟨?_, hreads⟩ hall⟩
      · rw [htext, hmembers]
        rfl
      · exact String.ofList_toList.symm

/-! ## Values -/

/-- At any depth, a value is written, and what is written is read as what it tells. -/
theorem written_of_isData {v : Value} (h : v.IsData) : v.WrittenAsTold := by
  induction h with
  | undefined => exact ⟨_, rfl, .null⟩
  | null => exact ⟨_, rfl, .null⟩
  | bool => exact ⟨_, rfl, .bool _⟩
  | @int i hdigits =>
    refine ⟨Number.decimal i, ?_, .integer (Number.denotes_decimal i) (Number.isWhole_decimal i)⟩
    rw [json_number, Number.json, Number.writeInt_eq_decimal hdigits]
  | @float x =>
    cases x with
    | finite negative rank => exact ⟨_, rfl, Number.reads_nested negative rank⟩
    | infinite negative => exact ⟨_, rfl, .null⟩
    | nan => exact ⟨_, rfl, .null⟩
  | @str s =>
    refine ⟨_, rfl, ?_⟩
    have hreads := Json.Reads.string s.toList
    rwa [String.ofList_toList] at hreads
  | bytes => exact ⟨_, rfl, .string _⟩
  | list _ ih => exact written_of_items (json_list _) rfl ih
  | tuple _ ih => exact written_of_items (json_tuple _) rfl ih
  | set _ ih => exact written_of_items (json_set _) rfl ih
  | @map fields hnames _ ih =>
    obtain ⟨members, hmembers, hall⟩ := fields_written ih
    refine ⟨writeObject members, ?_, Json.Reads.object hall⟩
    rw [json_ofFields hnames, hmembers]
    rfl

/-- The text of a value with parts is JSON without any white space between its parts, and it is read
as what the value tells. -/
theorem text_told {v : Value} (h : v.IsData) (hparts : v.plainText? = none) :
    ∃ s, v.text = .ok s ∧ ∀ spaced, Json.read? spaced s = some v.told := by
  obtain ⟨s, hs, hreads⟩ := written_of_isData h
  refine ⟨s, ?_, Json.read?_of_reads hreads⟩
  rw [text, hparts]
  exact hs

/-- A mapping with numbers of all kinds, and with a member and an item that are undefined. -/
def order : List (String × Value) :=
  [("items", .list [.tuple [.int 1, .float (.finite false ⟨1023 * 2 ^ 52 + 2 ^ 51, by decide⟩)],
      .undefined]),
    ("note", .str "a \"b\"\n"), ("gone", .undefined),
    ("total", .float (.finite true ⟨1083 * 2 ^ 52, by decide⟩)), ("ratio", .float .nan)]

/-- The text of the mapping, and what it is read as. -/
theorem text_told_order :
    ∃ s, (ofFields order).text = .ok s ∧
      String.ofList s = "\x7b\"items\":[[1,1.5],null],\"note\":\"a \\\"b\\\"\\n\"," ++
        "\"total\":-1152921504606847000,\"ratio\":null\x7d" ∧
      Json.read? false s = some (.object
        [("items", .array [.array [.integer 1, .decimal (3 / 2)], .null]),
          ("note", .string "a \"b\"\n"), ("total", .integer (-1152921504606847000)),
          ("ratio", .null)]) := by
  have hdata : (ofFields order).IsData := by
    refine .map (by decide) ?_
    simp only [order, List.forall_mem_cons]
    refine ⟨.list ?_, .str, .undefined, .float, .float, nofun⟩
    simp only [List.forall_mem_cons]
    refine ⟨.tuple ?_, .undefined, nofun⟩
    simp only [List.forall_mem_cons]
    exact ⟨.int (by decide), .float, nofun⟩
  have hfraction : Number.told (.float (.finite false ⟨1023 * 2 ^ 52 + 2 ^ 51, by decide⟩))
      = .decimal (3 / 2) := by
    have hplain : ¬Binary64.IsPlain (1023 * 2 ^ 52 + 2 ^ 51) := by decide +kernel
    have hread : Numeral.read?
        (Layout.exact.write (.finite false ⟨1023 * 2 ^ 52 + 2 ^ 51, by decide⟩))
        = some ⟨false, ['1'], some ['5'], none⟩ := by decide +kernel
    have hdigits : Decimal.ofDigits ['1', '5'] = 15 := by decide
    rw [Number.told, if_neg hplain, Binary64.exactly, hread]
    norm_num [Numeral.rational, Numeral.power, hdigits]
  have htotal : Number.told (.float (.finite true ⟨1083 * 2 ^ 52, by decide⟩))
      = .integer (-1152921504606847000) := by
    have hplain : Binary64.IsPlain (1083 * 2 ^ 52) := by decide +kernel
    have hpadded : Binary64.paddedDigits (1083 * 2 ^ 52) = 1152921504606847000 := by decide +kernel
    rw [Number.told, if_pos hplain, hpadded]
    rfl
  obtain ⟨s, hs, hread⟩ := text_told hdata rfl
  refine ⟨s, hs, ?_, ?_⟩
  · have htext : (ofFields order).text.toOption.map String.ofList = some
        ("\x7b\"items\":[[1,1.5],null],\"note\":\"a \\\"b\\\"\\n\"," ++
          "\"total\":-1152921504606847000,\"ratio\":null\x7d") := by decide +kernel
    rw [hs] at htext
    exact Option.some.inj htext
  · rw [hread false]
    simp only [order, ofFields, List.map_cons, List.map_nil, told, toldItems, toldMembers,
      isUndefined, hfraction, htotal]
    rfl

end Value

end LiveValue
