import LiveValue.Proofs.Conversions

/-!
# Parts of structured text

A value with parts is written in two steps: first the keys of all mappings become names, then
everything is written. Only integers with too many digits keep either step from being done, so that
it comes to the same to take one part after the other through both of them.

* `Value.json_list`, `Value.json_tuple`, `Value.json_set`: sequences, item by item;
* `Value.json_ofFields`: mappings under distinct names, member by member.
-/

namespace LiveValue

namespace Entries

variable {κ α : Type} [DecidableEq κ]

/-- A key that is not there comes last. -/
theorem write_of_not_mem {key : κ} {a : α} {entries : List (κ × α)}
    (h : key ∉ entries.map Prod.fst) : write key a entries = entries ++ [(key, a)] := by
  induction entries with
  | nil => rfl
  | cons first more ih =>
    obtain ⟨k, b⟩ := first
    rw [List.map_cons, List.mem_cons, not_or] at h
    rw [write, if_neg fun heq => h.1 heq.symm, ih h.2]
    rfl

/-- Entries under different keys are written as they come. -/
theorem writeAll_of_nodup {fresh entries : List (κ × α)}
    (h : ((entries ++ fresh).map Prod.fst).Nodup) : writeAll fresh entries = entries ++ fresh := by
  induction fresh generalizing entries with
  | nil => exact (List.append_nil entries).symm
  | cons head rest ih =>
    obtain ⟨key, a⟩ := head
    have hkey : key ∉ entries.map Prod.fst := by
      rw [List.map_append, List.nodup_append'] at h
      exact fun hmem => h.2.2 hmem List.mem_cons_self
    have hrest : ((entries ++ [(key, a)] ++ rest).map Prod.fst).Nodup := by simpa using h
    calc writeAll ((key, a) :: rest) entries = writeAll rest (write key a entries) := rfl
      _ = writeAll rest (entries ++ [(key, a)]) := by rw [write_of_not_mem hkey]
      _ = entries ++ (key, a) :: rest := by rw [ih hrest, List.append_assoc]; rfl

end Entries

namespace Value

theorem json_number (n : Number) : (number n).json = n.json := by
  simp only [json, withNames, written, bind, Except.bind]

/-! ## Sequences -/

/-- Two steps that only fail at the limit on digits can be done in either order. -/
theorem bind_comm_of_limit {α β γ : Type} {m : Except Fault α} {n : Except Fault β}
    (hm : ∀ fault, m = .error fault → fault = .digitLimit)
    (hn : ∀ fault, n = .error fault → fault = .digitLimit) (k : α → β → Except Fault γ) :
    (do
      let a ← m
      let b ← n
      k a b) = (do
      let b ← n
      let a ← m
      k a b) := by
  cases m with
  | ok a => cases n <;> rfl
  | error fault =>
    cases n with
    | ok b => rfl
    | error fault' =>
      rw [hm fault rfl, hn fault' rfl]
      rfl

theorem itemsWithNames_bind_writtenItems (items : List Value) :
    itemsWithNames items >>= writtenItems = items.mapM json := by
  induction items with
  | nil => rfl
  | cons x xs ih =>
    have hlater (first : Value) :=
      bind_comm_of_limit (fun _ h => (itemsWithNames_eq_error xs h).1)
        (fun _ h => (written_eq_error first h).1)
        fun more text => (writtenItems more).map (text :: ·)
    calc itemsWithNames (x :: xs) >>= writtenItems
        = x.withNames >>= fun first => itemsWithNames xs >>= fun more =>
            first.written >>= fun text => (writtenItems more).map (text :: ·) := by
          rw [itemsWithNames]
          simp only [bind_assoc, pure_bind, writtenItems]
          rfl
      _ = x.withNames >>= fun first => first.written >>= fun text =>
            itemsWithNames xs >>= fun more => (writtenItems more).map (text :: ·) := by
          simp only [hlater]
      _ = (x :: xs).mapM json := by
          rw [List.mapM_cons, json, ← ih]
          simp only [bind_assoc]
          rfl

/-- Whatever holds the items, it is written between brackets. -/
theorem json_of_items {whole : List Value → Value}
    (hnames : ∀ items, (whole items).withNames = do return whole (← itemsWithNames items))
    (hwritten : ∀ items, (whole items).written = do
      return '[' :: joinWithCommas (← writtenItems items) ++ [']']) (items : List Value) :
    (whole items).json = do return '[' :: joinWithCommas (← items.mapM json) ++ [']'] := by
  rw [← itemsWithNames_bind_writtenItems, json, hnames, bind_assoc, bind_assoc]
  simp only [pure_bind, hwritten]

theorem json_list (items : List Value) :
    (list items).json = do return '[' :: joinWithCommas (← items.mapM json) ++ [']'] :=
  json_of_items (fun _ => by rw [withNames]) (fun _ => by rw [written]) items

theorem json_tuple (items : List Value) :
    (tuple items).json = do return '[' :: joinWithCommas (← items.mapM json) ++ [']'] :=
  json_of_items (fun _ => by rw [withNames]) (fun _ => by rw [written]) items

theorem json_set (items : List Value) :
    (set items).json = do return '[' :: joinWithCommas (← items.mapM json) ++ [']'] :=
  json_of_items (fun _ => by rw [withNames]) (fun _ => by rw [written]) items

/-! ## Mappings -/

def named (fields : List (String × Value)) : List (Value × Value) :=
  fields.map fun (name, value) => (.str name, value)

/-- The names of members with their texts, undefined members left out. -/
def jsonFields : List (String × Value) → Except Fault (List (List Char × List Char))
  | [] => .ok []
  | (name, value) :: rest =>
      if value.isUndefined then jsonFields rest
      else do
        let text ← value.json
        return (name.toList, text) :: (← jsonFields rest)

theorem membersWithNames_cons (name : String) (value : Value) (rest : List (String × Value)) :
    membersWithNames (named ((name, value) :: rest)) =
      if value.isUndefined then membersWithNames (named rest)
      else do
        let member ← value.withNames
        return (name, member) :: (← membersWithNames (named rest)) := by
  have hcons : membersWithNames (named ((name, value) :: rest)) =
      if value.isUndefined then membersWithNames (named rest)
      else do
        let member ← value.withNames
        return (String.ofList name.toList, member) :: (← membersWithNames (named rest)) := by
    change membersWithNames ((.str name, value) :: named rest) = _
    rw [membersWithNames]
    rfl
  rw [hcons, String.ofList_toList]

theorem membersWithNames_bind_writtenMembers (fields : List (String × Value)) :
    (membersWithNames (named fields) >>= fun members => writtenMembers (named members))
      = jsonFields fields := by
  induction fields with
  | nil => rfl
  | cons field rest ih =>
    obtain ⟨name, value⟩ := field
    rw [membersWithNames_cons, jsonFields]
    split
    · exact ih
    have hlater (member : Value) :=
      bind_comm_of_limit (fun _ h => (membersWithNames_eq_error (named rest) h).1)
        (fun _ h => (written_eq_error member h).1)
        fun more text => (writtenMembers (named more)).map ((name.toList, text) :: ·)
    calc (do
          let member ← value.withNames
          return (name, member) :: (← membersWithNames (named rest))) >>=
            (fun members => writtenMembers (named members))
        = value.withNames >>= fun member => membersWithNames (named rest) >>= fun more =>
            member.written >>= fun text =>
              (writtenMembers (named more)).map ((name.toList, text) :: ·) := by
          simp only [bind_assoc, pure_bind]
          rfl
      _ = value.withNames >>= fun member => member.written >>= fun text =>
            membersWithNames (named rest) >>= fun more =>
              (writtenMembers (named more)).map ((name.toList, text) :: ·) := by
          simp only [hlater]
      _ = (do
          let text ← value.json
          return (name.toList, text) :: (← jsonFields rest)) := by
          rw [json, ← ih]
          simp only [bind_assoc]
          rfl

/-- Members keep their names. -/
theorem names_sublist_of_membersWithNames {fields members : List (String × Value)}
    (h : membersWithNames (named fields) = .ok members) :
    (members.map Prod.fst).Sublist (fields.map Prod.fst) := by
  induction fields generalizing members with
  | nil =>
    cases h
    exact .slnil
  | cons field rest ih =>
    obtain ⟨name, value⟩ := field
    rw [membersWithNames_cons] at h
    split at h
    · exact (ih h).cons name
    · obtain ⟨member, -, h⟩ := bind_eq_ok.1 h
      obtain ⟨more, hmore, hmembers⟩ := bind_eq_ok.1 h
      cases hmembers
      exact (ih hmore).cons_cons name

/-- Under distinct names nothing is merged. -/
theorem json_ofFields {fields : List (String × Value)} (hnames : (fields.map Prod.fst).Nodup) :
    (ofFields fields).json = do return writeObject (← jsonFields fields) := by
  have hjson : (ofFields fields).json
      = membersWithNames (named fields) >>= fun members =>
          (writtenMembers (named (Entries.writeAll members []))).map writeObject := by
    change (map (named fields)).json = _
    rw [json, withNames, bind_assoc]
    rfl
  rw [hjson, ← membersWithNames_bind_writtenMembers, bind_assoc]
  cases hmembers : membersWithNames (named fields) with
  | error fault => rfl
  | ok members =>
    have hdistinct : (([] ++ members).map Prod.fst).Nodup :=
      hnames.sublist (names_sublist_of_membersWithNames hmembers)
    change (writtenMembers (named (Entries.writeAll members []))).map writeObject = _
    rw [Entries.writeAll_of_nodup hdistinct]
    rfl

end Value

end LiveValue
