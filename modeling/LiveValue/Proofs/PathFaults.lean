import LiveValue.Proofs.Addresses
import LiveValue.Proofs.Conversions
import LiveValue.Proofs.NumberTexts

/-!
# Faults of path lookups

A path comes to a value whatever the walk meets on the way, save in one place. Where it leads to a
list or a tuple, the next segment is converted to an integer before it is compared with its plain
decimal, and digits that are too many for the conversion are a fault, even if no position is spelled
like that.

* `Path.step_of_tooLong`, `Path.resolve_of_tooLong`: a segment of too many digits in front of a list
  or a tuple is a fault;
* `Path.step_eq_undefined`: every other segment that is no position leads to nothing;
* `lookups_fault_exactly`: the faults of all lookups, and what there is instead.
-/

namespace LiveValue

namespace Path

variable {root cursor dataModel scope : Value} {path segment : String} {items : List Value}

theorem walk_through {before : List String} (hwalk : walk root before = .ok cursor)
    (segment : String) (after : List String) :
    walk root (before ++ segment :: after) = (do walk (← step cursor segment) after) := by
  rw [walk_append, hwalk]
  rfl

/-- A list or a tuple is left with what the segment names as a position. -/
theorem step_eq_position? (hcursor : cursor = .list items ∨ cursor = .tuple items) :
    step cursor segment = (do
      match ← position? segment with
      | some i => return items[i]?.getD .undefined
      | none => return .undefined) := by
  rcases hcursor with rfl | rfl <;> rfl

/-- Digits that are too many for an integer are a fault, whichever position they might name. -/
theorem position?_of_tooLong (h : Decimal.TooLong segment.toList) :
    position? segment = .error .digitLimit := by
  obtain ⟨hdigits, hlong⟩ := h
  have hsome : segment.toList.isEmpty = false :=
    List.isEmpty_eq_false_iff.2 (List.ne_nil_of_length_pos (Nat.zero_lt_of_lt hlong))
  unfold position?
  dsimp only
  rw [hsome, List.all_eq_true.2 hdigits, if_neg (by decide), if_pos hlong]

/-- In front of a list or a tuple they are a fault of the lookup. -/
theorem step_of_tooLong (hcursor : cursor = .list items ∨ cursor = .tuple items)
    (h : Decimal.TooLong segment.toList) : step cursor segment = .error .digitLimit := by
  rw [step_eq_position? hcursor, position?_of_tooLong h]
  rfl

theorem resolve_of_tooLong (h : TooLong (source dataModel scope path) path) :
    resolve dataModel scope path = .error .digitLimit := by
  obtain ⟨before, segment, after, items, hsegments, hwalk, hlong⟩ := h
  rw [resolve, hsegments]
  rcases hwalk with hwalk | hwalk
  · rw [walk_through hwalk, step_of_tooLong (.inl rfl) hlong]
    rfl
  · rw [walk_through hwalk, step_of_tooLong (.inr rfl) hlong]
    rfl

/-- Digits are a segment of their own. -/
theorem segments_of_tooLong (h : Decimal.TooLong segment.toList) : segments segment = [segment] := by
  obtain ⟨hdigits, hlong⟩ := h
  refine segments_eq_singleton (fun hnone => ?_) fun hslash => ?_
  · rw [hnone] at hlong
    cases hlong
  · exact absurd (hdigits _ hslash) (by decide)

/-- Wherever a path leads to a list or a tuple, it can go on to a fault. -/
theorem resolve_long_position (hwalk : walk dataModel (segments path) = .ok cursor)
    (hcursor : cursor = .list items ∨ cursor = .tuple items)
    (hlong : Decimal.TooLong segment.toList) (scope : Value) :
    resolve dataModel scope ("/" ++ (path ++ "/" ++ segment)) = .error .digitLimit := by
  rw [resolve_slash_append, segments_append_slash, segments_of_tooLong hlong, walk_through hwalk,
    step_of_tooLong hcursor hlong]
  rfl

/-- The only fault of a lookup is a position of too many digits. -/
theorem resolve_eq_error_iff {fault : Fault} :
    resolve dataModel scope path = .error fault ↔
      fault = .digitLimit ∧ TooLong (source dataModel scope path) path := by
  constructor
  · exact resolve_eq_error
  · rintro ⟨rfl, hlong⟩
    exact resolve_of_tooLong hlong

theorem exists_resolve_iff :
    (∃ v, resolve dataModel scope path = .ok v) ↔ ¬TooLong (source dataModel scope path) path := by
  constructor
  · rintro ⟨v, hv⟩ hlong
    rw [resolve_of_tooLong hlong] at hv
    cases hv
  · intro hlong
    cases hresolve : resolve dataModel scope path with
    | error fault => exact absurd (resolve_eq_error hresolve).2 hlong
    | ok v => exact ⟨v, rfl⟩

/-- A segment that is no position of a list or a tuple leads from there to nothing. -/
theorem step_eq_undefined (hcursor : cursor = .list items ∨ cursor = .tuple items)
    (habsent : ∀ index < items.length, segment ≠ (Turn.position index).segment)
    (hshort : ¬Decimal.TooLong segment.toList) : step cursor segment = .ok .undefined := by
  rw [step_eq_position? hcursor]
  rcases hposition : position? segment with fault | _ | index
  · exact absurd (position?_eq_error hposition).2 hshort
  · rfl
  · obtain ⟨hsegment, -⟩ := position?_eq_some_iff.1 hposition
    have hbeyond : items.length ≤ index := by
      by_contra hwithin
      exact habsent index (Nat.not_le.1 hwithin) hsegment
    have hnone : items[index]? = none := List.getElem?_eq_none hbeyond
    show Except.ok (items[index]?.getD .undefined) = _
    rw [hnone]
    rfl

end Path

/-- **Lookups fault exactly at positions of too many digits.** A lookup comes to a value unless it
meets a list or a tuple with a segment of too many digits, and then the fault is the limit of
digits. Where any other segment meets a list or a tuple and is not the plain decimal of one of its
positions, the lookup comes to the undefined value. -/
theorem lookups_fault_exactly (dataModel scope : Value) (path : String) :
    ((∃ v, Path.resolve dataModel scope path = .ok v) ↔
      ¬Path.TooLong (Path.source dataModel scope path) path) ∧
    (∀ fault, Path.resolve dataModel scope path = .error fault ↔
      fault = .digitLimit ∧ Path.TooLong (Path.source dataModel scope path) path) ∧
    ∀ before segment after cursor items, Path.segments path = before ++ segment :: after →
      Path.walk (Path.source dataModel scope path) before = .ok cursor →
      (cursor = .list items ∨ cursor = .tuple items) →
      (∀ index < items.length, segment ≠ (Turn.position index).segment) →
      ¬Decimal.TooLong segment.toList → Path.resolve dataModel scope path = .ok .undefined := by
  refine ⟨Path.exists_resolve_iff, fun fault => Path.resolve_eq_error_iff, ?_⟩
  intro before segment after cursor items hsegments hwalk hcursor habsent hshort
  rw [Path.resolve, hsegments, Path.walk_through hwalk,
    Path.step_eq_undefined hcursor habsent hshort]
  exact Path.walk_undefined after

def noteTree : Value := .map [(.str "notes", .list [.str "first"])]

/-- The second note is not there, and neither is the first one with a zero in front. -/
theorem lookups_fault_exactly_notes :
    Path.resolve noteTree .null "/notes/1" = .ok .undefined ∧
    Path.resolve noteTree .null "/notes/00" = .ok .undefined := by
  have hshort {segment : String} (h : segment.toList.length ≤ 2) :
      ¬Decimal.TooLong segment.toList := fun hlong => by
    have hfew : segment.toList.length ≤ Number.maxDigits := h.trans (by decide)
    exact absurd hlong.2 (Nat.not_lt.2 hfew)
  have habsent {segment : String} (h : segment ≠ "0") :
      ∀ index < [Value.str "first"].length, segment ≠ (Turn.position index).segment := by
    intro index hindex
    obtain rfl : index = 0 := Nat.lt_one_iff.1 hindex
    exact h
  obtain ⟨-, -, hsecond⟩ := lookups_fault_exactly noteTree .null "/notes/1"
  obtain ⟨-, -, hzeros⟩ := lookups_fault_exactly noteTree .null "/notes/00"
  exact ⟨hsecond ["notes"] "1" [] _ _ (by decide) rfl (.inl rfl) (habsent (by decide))
      (hshort (by decide)),
    hzeros ["notes"] "00" [] _ _ (by decide) rfl (.inl rfl) (habsent (by decide))
      (hshort (by decide))⟩

def zeros (count : Nat) : String := String.ofList (List.replicate count '0')

theorem tooLong_zeros {count : Nat} (h : Number.maxDigits < count) :
    Decimal.TooLong (zeros count).toList := by
  rw [zeros, String.toList_ofList]
  refine ⟨fun c hc => ?_, ?_⟩
  · rw [List.eq_of_mem_replicate hc]
    rfl
  · rwa [List.length_replicate]

/-- No position is spelled with more than one zero. -/
theorem zeros_ne_position {count : Nat} (h : 1 < count) (index : Nat) :
    zeros count ≠ (Turn.position index).segment := by
  intro hsame
  have hdigits : List.replicate count '0' = Decimal.digits index := String.ofList_injective hsame
  obtain rfl : 0 = index := by
    rw [← Decimal.ofDigits_digits index, ← hdigits, Decimal.ofDigits_zeros]
  have hcount : count = (Decimal.digits 0).length := by rw [← hdigits, List.length_replicate]
  rw [hcount] at h
  exact absurd h (by decide)

/-- No position of a list is spelled with so many zeros, and yet looking there is a fault and does
not come to the undefined value. -/
theorem zeros_not_looked_up :
    (∀ index, zeros 4301 ≠ (Turn.position index).segment) ∧
    Path.resolve noteTree .null ("/" ++ ("notes" ++ "/" ++ zeros 4301)) = .error .digitLimit :=
  ⟨zeros_ne_position (by decide),
    Path.resolve_long_position rfl (.inl rfl) (tooLong_zeros (by decide)) .null⟩

end LiveValue
