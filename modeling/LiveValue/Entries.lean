/-!
# Entries under keys

Lists of entries in which every key counts once: the first entry under a key is the one that is
found, and writing under a key that is already there keeps its place. `find?_write` and
`find?_writeAll` say what is found after writing.
-/

namespace LiveValue.Entries

variable {κ α : Type} [DecidableEq κ]

def find? (key : κ) : List (κ × α) → Option α
  | [] => none
  | (k, a) :: rest => if k = key then some a else find? key rest

/-- Writes an entry: a key that is already there keeps its place and takes the new entry. -/
def write (key : κ) (a : α) : List (κ × α) → List (κ × α)
  | [] => [(key, a)]
  | (k, b) :: rest => if k = key then (k, a) :: rest else (k, b) :: write key a rest

def writeAll (fresh entries : List (κ × α)) : List (κ × α) :=
  fresh.foldl (fun written (key, a) => write key a written) entries

theorem find?_write (x key : κ) (a : α) (l : List (κ × α)) :
    find? x (write key a l) = if key = x then some a else find? x l := by
  induction l with
  | nil => simp [write, find?]
  | cons head rest ih =>
    obtain ⟨k, b⟩ := head
    by_cases hk : k = key
    · subst hk
      by_cases hx : k = x <;> simp [write, find?, hx]
    · rw [write, if_neg hk, find?, ih, find?]
      by_cases hkx : k = x
      · have : ¬key = x := fun h => hk (hkx.trans h.symm)
        simp [hkx, this]
      · simp [hkx]

theorem isSome_find? {key : κ} {l : List (κ × α)} :
    (find? key l).isSome = true ↔ key ∈ l.map Prod.fst := by
  induction l with
  | nil => simp [find?]
  | cons head rest ih =>
    obtain ⟨k, a⟩ := head
    by_cases h : k = key
    · simp [find?, h]
    · rw [find?, if_neg h, ih, List.map_cons, List.mem_cons]
      exact ⟨.inr, fun hm => hm.resolve_left (Ne.symm h)⟩

theorem mem_keys_write {key x : κ} {a : α} {l : List (κ × α)} :
    x ∈ (write key a l).map Prod.fst ↔ x = key ∨ x ∈ l.map Prod.fst := by
  induction l with
  | nil => simp [write]
  | cons head rest ih =>
    obtain ⟨k, b⟩ := head
    by_cases h : k = key
    · simp [write, h]
    · rw [write, if_neg h, List.map_cons, List.mem_cons, ih, List.map_cons, List.mem_cons]
      exact or_left_comm

theorem nodup_keys_write {key : κ} {a : α} {l : List (κ × α)} (h : (l.map Prod.fst).Nodup) :
    ((write key a l).map Prod.fst).Nodup := by
  induction l with
  | nil => simp [write]
  | cons head rest ih =>
    obtain ⟨k, b⟩ := head
    rw [List.map_cons, List.nodup_cons] at h
    by_cases hk : k = key
    · rw [write, if_pos hk, List.map_cons, List.nodup_cons]
      exact h
    · rw [write, if_neg hk, List.map_cons, List.nodup_cons, mem_keys_write]
      exact ⟨fun hm => hm.elim hk h.1, ih h.2⟩

theorem nodup_keys_writeAll {fresh l : List (κ × α)} (h : (l.map Prod.fst).Nodup) :
    ((writeAll fresh l).map Prod.fst).Nodup := by
  induction fresh generalizing l with
  | nil => exact h
  | cons head rest ih => exact ih (nodup_keys_write h)

theorem find?_append (x : κ) (l l' : List (κ × α)) :
    find? x (l ++ l') = (find? x l).or (find? x l') := by
  induction l with
  | nil => simp [find?]
  | cons head rest ih =>
    obtain ⟨k, a⟩ := head
    by_cases h : k = x <;> simp [find?, h, ih]

/-- What stands in an entry after writing is what was written or what was there. -/
theorem of_mem_write {key : κ} {a : α} {l : List (κ × α)} {entry : κ × α}
    (h : entry ∈ write key a l) : entry.2 = a ∨ entry ∈ l := by
  induction l with
  | nil => exact .inl (congrArg Prod.snd (List.mem_singleton.1 h))
  | cons head rest ih =>
    obtain ⟨k, b⟩ := head
    rw [write] at h
    split at h
    · rcases List.mem_cons.1 h with rfl | hrest
      · exact .inl rfl
      · exact .inr (List.mem_cons_of_mem _ hrest)
    · rcases List.mem_cons.1 h with rfl | hrest
      · exact .inr List.mem_cons_self
      · exact (ih hrest).imp_right (List.mem_cons_of_mem _)

theorem of_mem_writeAll {fresh l : List (κ × α)} {entry : κ × α} (h : entry ∈ writeAll fresh l) :
    (∃ written ∈ fresh, written.2 = entry.2) ∨ entry ∈ l := by
  induction fresh generalizing l with
  | nil => exact .inr h
  | cons head rest ih =>
    obtain ⟨key, a⟩ := head
    rcases ih h with ⟨written, hmem, hsame⟩ | hmem
    · exact .inl ⟨written, List.mem_cons_of_mem _ hmem, hsame⟩
    · exact (of_mem_write hmem).imp_left fun hsame => ⟨(key, a), List.mem_cons_self, hsame.symm⟩

/-- The last of the fresh entries under a key is found, else what was there before. -/
theorem find?_writeAll (x : κ) (fresh l : List (κ × α)) :
    find? x (writeAll fresh l) = (find? x fresh.reverse).or (find? x l) := by
  induction fresh generalizing l with
  | nil => simp [writeAll, find?]
  | cons head rest ih =>
    obtain ⟨key, a⟩ := head
    change find? x (writeAll rest (write key a l)) = _
    rw [ih, find?_write, List.reverse_cons, find?_append]
    by_cases h : key = x <;> simp [find?, h]

end LiveValue.Entries
