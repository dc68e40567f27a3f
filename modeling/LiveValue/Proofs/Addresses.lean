import LiveValue.Proofs.Integers
import LiveValue.Proofs.PathWalks

/-!
# Addresses in a tree of values

A tree of mappings, lists and tuples has its nodes at addresses: the names and positions that lead
down to them. A path finds a node exactly if it is the address of the node as it is written, empty
segments aside. So a position has one spelling only, and nothing is found below a string, a byte
string, a set or a scalar.

* `Value.Leads`: where the nodes of a tree are;
* `Path.position?_eq_some_iff`: the one spelling of a position;
* `Value.Child.step_eq`, `Path.exists_child_of_step`: a single segment, in both directions;
* `paths_find_nodes`: whole paths.
-/

namespace LiveValue

/-! ## Addresses -/

/-- A turn on the way down a tree: a name of a mapping, or a position of a list or tuple. -/
inductive Turn where
  | key (name : String)
  | position (index : Nat)
deriving DecidableEq

namespace Turn

/-- How a turn is written: a name as it is, a position in plain decimal. -/
def segment : Turn → String
  | .key name => name
  | .position index => String.ofList (Decimal.digits index)

/-- A turn that can be a segment of a path: a name that is not empty and has no slash in it, or a
position with no more digits than are converted, which is far beyond the end of any list. -/
def Writable : Turn → Prop
  | .key name => name ≠ "" ∧ '/' ∉ name.toList
  | .position index => (Decimal.digits index).length ≤ Number.maxDigits

instance (turn : Turn) : Decidable turn.Writable :=
  match turn with
  | .key name => inferInstanceAs (Decidable (name ≠ "" ∧ '/' ∉ name.toList))
  | .position index =>
      inferInstanceAs (Decidable ((Decimal.digits index).length ≤ Number.maxDigits))

theorem Writable.segment_clean {turn : Turn} (h : turn.Writable) :
    turn.segment ≠ "" ∧ '/' ∉ turn.segment.toList := by
  cases turn with
  | key name => exact h
  | position index =>
    rw [segment, String.toList_ofList]
    refine ⟨by simpa using Decimal.digits_ne_nil index, fun hslash => ?_⟩
    have hdigit : '/'.isDigit = true := Decimal.isDigit_of_mem_digits hslash
    exact absurd hdigit (by decide)

end Turn

/-- The turns from the root of a tree to a node. -/
abbrev Address := List Turn

namespace Address

/-- Every turn of the address can be a segment. -/
def Writable (address : Address) : Prop := ∀ turn ∈ address, turn.Writable

instance (address : Address) : Decidable address.Writable :=
  inferInstanceAs (Decidable (∀ turn ∈ address, turn.Writable))

/-- The turns as they are written. -/
def segments (address : Address) : List String := address.map Turn.segment

def path (address : Address) : String := "/" ++ "/".intercalate address.segments

end Address

namespace Value

/-- A turn leads from a mapping to what it holds under a name, from a list or a tuple to what stands
at a position, and from no other value to anything. -/
inductive Child : Value → Turn → Value → Prop
  | entry {entries : List (Value × Value)} {name : String} {child : Value} :
      (.str name, child) ∈ entries → Child (.map entries) (.key name) child
  | item {items : List Value} {index : Nat} {child : Value} :
      items[index]? = some child → Child (.list items) (.position index) child
  | component {items : List Value} {index : Nat} {child : Value} :
      items[index]? = some child → Child (.tuple items) (.position index) child

/-- An address leads from the root of a tree to a node. -/
inductive Leads : Value → Address → Value → Prop
  | here {root : Value} : Leads root [] root
  | down {root child node : Value} {turn : Turn} {rest : Address} :
      root.Child turn child → Leads child rest node → Leads root (turn :: rest) node

/-- No mapping of the tree holds two values under one name. -/
def Unambiguous (root : Value) : Prop :=
  ∀ address entries, root.Leads address (.map entries) →
    ∀ name v w, (.str name, v) ∈ entries → (.str name, w) ∈ entries → v = w

variable {root v w : Value} {turn : Turn}

theorem Unambiguous.child (h : v.Unambiguous) (hchild : v.Child turn w) : w.Unambiguous :=
  fun address entries hleads => h (turn :: address) entries (.down hchild hleads)

/-- A tree is unambiguous if its root and all that lies directly below are. -/
theorem unambiguous_of_children
    (hroot : ∀ entries, root = .map entries →
      ∀ name v w, (.str name, v) ∈ entries → (.str name, w) ∈ entries → v = w)
    (hchildren : ∀ turn child, root.Child turn child → child.Unambiguous) : root.Unambiguous := by
  intro address entries hleads
  cases hleads with
  | here => exact hroot entries rfl
  | down hchild hrest => exact hchildren _ _ hchild _ entries hrest

theorem Child.unique (hv : v.Unambiguous) (h : v.Child turn w) {w' : Value}
    (h' : v.Child turn w') : w = w' := by
  cases h with
  | entry hmem =>
    cases h' with
    | entry hmem' => exact hv [] _ .here _ _ _ hmem hmem'
  | item hget =>
    cases h' with
    | item hget' => exact Option.some.inj (hget.symm.trans hget')
  | component hget =>
    cases h' with
    | component hget' => exact Option.some.inj (hget.symm.trans hget')

/-- From one value, two turns are written differently. -/
theorem Child.turn_unique (h : v.Child turn w) {turn' : Turn} {w' : Value}
    (h' : v.Child turn' w') (hsame : turn.segment = turn'.segment) : turn = turn' := by
  have hposition {i j : Nat} (hij : (Turn.position i).segment = (Turn.position j).segment) :
      i = j := by
    have hdigits : Decimal.digits i = Decimal.digits j := String.ofList_injective hij
    rw [← Decimal.ofDigits_digits i, hdigits, Decimal.ofDigits_digits]
  cases h with
  | entry hmem =>
    cases h' with
    | entry hmem' => exact congrArg Turn.key hsame
  | item hget =>
    cases h' with
    | item hget' => exact congrArg Turn.position (hposition hsame)
  | component hget =>
    cases h' with
    | component hget' => exact congrArg Turn.position (hposition hsame)

/-- Two addresses in one tree are written differently. -/
theorem Leads.address_unique {a b : Address} {node node' : Value} (hroot : root.Unambiguous)
    (ha : root.Leads a node) (hb : root.Leads b node') (hsame : a.segments = b.segments) :
    a = b := by
  induction ha generalizing b node' with
  | here =>
    cases hb with
    | here => rfl
    | down => cases hsame
  | down hchild hrest ih =>
    cases hb with
    | here => cases hsame
    | down hchild' hrest' =>
      obtain ⟨hsegment, hsegments⟩ := List.cons.inj hsame
      obtain rfl := hchild.turn_unique hchild' hsegment
      obtain rfl := hchild.unique hroot hchild'
      rw [ih (hroot.child hchild) hrest' hsegments]

/-! ## Names of a mapping -/

theorem mem_of_field? {name : String} {entries : List (Value × Value)}
    (h : field? name entries = some v) : (.str name, v) ∈ entries := by
  fun_induction field? name entries with
  | case1 => cases h
  | case2 value rest =>
    cases h
    exact List.mem_cons_self
  | case3 key value rest hkey ih => exact List.mem_cons_of_mem _ (ih h)
  | case4 head rest hother ih => exact List.mem_cons_of_mem _ (ih h)

theorem exists_field?_of_mem {name : String} {entries : List (Value × Value)}
    (h : (.str name, v) ∈ entries) : ∃ w, field? name entries = some w := by
  fun_induction field? name entries with
  | case1 => cases h
  | case2 value rest => exact ⟨value, rfl⟩
  | case3 key value rest hkey ih =>
    rcases List.mem_cons.1 h with heq | hrest
    · cases heq
      exact absurd rfl hkey
    · exact ih hrest
  | case4 head rest hother ih =>
    rcases List.mem_cons.1 h with rfl | hrest
    · exact absurd rfl (hother name v)
    · exact ih hrest

end Value

/-! ## Single segments -/

namespace Path

/-- A position has one spelling: plain decimal, without zeros in front. -/
theorem position?_eq_some_iff {segment : String} {index : Nat} :
    position? segment = .ok (some index) ↔
      segment = (Turn.position index).segment ∧ (Turn.position index).Writable := by
  unfold position?
  dsimp only
  constructor
  · intro h
    split at h
    · cases h
    · split at h
      · cases h
      · next hshort =>
        split at h
        · next hdigits =>
          obtain rfl := Option.some.inj (Except.ok.inj h)
          rw [Turn.Writable, Turn.segment, hdigits, String.ofList_toList]
          exact ⟨rfl, Nat.not_lt.1 hshort⟩
        · cases h
  · rintro ⟨rfl, hshort⟩
    have hdigits : (Decimal.digits index).all Char.isDigit = true :=
      List.all_eq_true.2 fun c hc => Decimal.isDigit_of_mem_digits hc
    rw [Turn.segment, String.toList_ofList, List.isEmpty_eq_false_iff.2 (Decimal.digits_ne_nil _),
      hdigits, if_neg (by decide), if_neg (Nat.not_lt.2 hshort), Decimal.ofDigits_digits,
      if_pos rfl]

/-- A list and a tuple are looked into in the same way. -/
theorem step_tuple (items : List Value) (segment : String) :
    step (.tuple items) segment = step (.list items) segment := rfl

theorem step_list_position {index : Nat} (h : (Turn.position index).Writable)
    (items : List Value) :
    step (.list items) (Turn.position index).segment
      = .ok (items[index]?.getD .undefined) := by
  rw [step, position?_eq_some_iff.2 ⟨rfl, h⟩]
  rfl

theorem exists_position_of_step_list {items : List Value} {segment : String} {w : Value}
    (h : step (.list items) segment = .ok w) (hw : w ≠ .undefined) :
    ∃ index, items[index]? = some w ∧ (Turn.position index).Writable ∧
      (Turn.position index).segment = segment := by
  rw [step] at h
  rcases hposition : position? segment with fault | _ | index
  · rw [hposition] at h
    cases h
  · rw [hposition] at h
    cases h
    exact absurd rfl hw
  · rw [hposition] at h
    obtain rfl : items[index]?.getD .undefined = w := Except.ok.inj h
    obtain ⟨hsegment, hwritable⟩ := position?_eq_some_iff.1 hposition
    rcases hget : items[index]? with _ | found
    · rw [hget] at hw
      exact absurd rfl hw
    · exact ⟨index, hget, hwritable, hsegment.symm⟩

end Path

theorem Value.Child.step_eq {v w : Value} {turn : Turn} (h : v.Child turn w)
    (hv : v.Unambiguous) (hturn : turn.Writable) : Path.step v turn.segment = .ok w := by
  cases h with
  | @entry entries name child hmem =>
    obtain ⟨found, hfound⟩ := exists_field?_of_mem hmem
    obtain rfl : w = found := hv [] entries .here name w found hmem (mem_of_field? hfound)
    rw [Turn.segment, Path.step, hfound]
    rfl
  | item hget =>
    rw [Path.step_list_position hturn, hget]
    rfl
  | component hget =>
    rw [Path.step_tuple, Path.step_list_position hturn, hget]
    rfl

/-- A segment only leads from a value to something if it is how a turn to that is written. -/
theorem Path.exists_child_of_step {v w : Value} {segment : String}
    (h : step v segment = .ok w) (hw : w ≠ .undefined)
    (hclean : segment ≠ "" ∧ '/' ∉ segment.toList) :
    ∃ turn : Turn, v.Child turn w ∧ turn.Writable ∧ turn.segment = segment := by
  cases v with
  | map entries =>
    obtain rfl : (Value.field? segment entries).getD .undefined = w := Except.ok.inj h
    rcases hfield : Value.field? segment entries with _ | found
    · rw [hfield] at hw
      exact absurd rfl hw
    · exact ⟨.key segment, .entry (Value.mem_of_field? hfield), hclean, rfl⟩
  | list items =>
    obtain ⟨index, hget, hturn⟩ := exists_position_of_step_list h hw
    exact ⟨.position index, .item hget, hturn⟩
  | tuple items =>
    rw [step_tuple] at h
    obtain ⟨index, hget, hturn⟩ := exists_position_of_step_list h hw
    exact ⟨.position index, .component hget, hturn⟩
  | _ =>
    cases h
    exact absurd rfl hw

/-! ## Whole paths -/

theorem Value.Leads.walk_eq {root node : Value} {address : Address} (h : root.Leads address node)
    (hroot : root.Unambiguous) (haddress : address.Writable) :
    Path.walk root address.segments = .ok node := by
  induction h with
  | here => rfl
  | @down root child node turn rest hchild hrest ih =>
    obtain ⟨hturn, hturns⟩ := List.forall_mem_cons.1 haddress
    have hstep : Path.step root turn.segment = .ok child := hchild.step_eq hroot hturn
    have hwalk : Path.walk child (Address.segments rest) = .ok node :=
      ih (hroot.child hchild) hturns
    rw [Address.segments, List.map_cons, Path.walk, List.foldlM_cons, hstep]
    exact hwalk

namespace Path

theorem exists_leads_of_walk {segments : List String}
    (hclean : ∀ segment ∈ segments, segment ≠ "" ∧ '/' ∉ segment.toList) {root node : Value}
    (h : walk root segments = .ok node) (hnode : node ≠ .undefined) :
    ∃ address : Address, root.Leads address node ∧ address.Writable ∧
      address.segments = segments := by
  induction segments generalizing root with
  | nil =>
    cases h
    exact ⟨[], .here, fun _ hturn => absurd hturn List.not_mem_nil, rfl⟩
  | cons segment rest ih =>
    obtain ⟨hfirst, hrest⟩ := List.forall_mem_cons.1 hclean
    rw [walk, List.foldlM_cons] at h
    rcases hstep : step root segment with fault | child
    · rw [hstep] at h
      cases h
    · rw [hstep] at h
      have hwalk : walk child rest = .ok node := h
      have hchild : child ≠ .undefined := by
        rintro rfl
        rw [walk_undefined] at hwalk
        exact hnode (Except.ok.inj hwalk).symm
      obtain ⟨turn, hturn, hwritable, rfl⟩ := exists_child_of_step hstep hchild hfirst
      obtain ⟨address, hleads, hturns, rfl⟩ := ih hrest hwalk
      exact ⟨turn :: address, .down hturn hleads, List.forall_mem_cons.2 ⟨hwritable, hturns⟩, rfl⟩

/-- A path without its empty segments. -/
def normal (path : String) : String := "/" ++ "/".intercalate (segments path)

theorem segments_slash_intercalate {names : List String}
    (hclean : ∀ name ∈ names, name ≠ "" ∧ '/' ∉ name.toList) :
    segments ("/" ++ "/".intercalate names) = names := by
  rw [segments_slash_append, segments_intercalate]
  induction names with
  | nil => rfl
  | cons name rest ih =>
    obtain ⟨hname, hrest⟩ := List.forall_mem_cons.1 hclean
    rw [List.flatMap_cons, segments_eq_singleton hname.1 hname.2, ih hrest]
    rfl

theorem segments_normal (path : String) : segments (normal path) = segments path :=
  segments_slash_intercalate fun _ h => of_mem_segments h

end Path

theorem Address.Writable.segments_path {address : Address} (h : address.Writable) :
    Path.segments address.path = address.segments := by
  refine Path.segments_slash_intercalate fun segment hsegment => ?_
  obtain ⟨turn, hturn, rfl⟩ := List.mem_map.1 hsegment
  exact (h turn hturn).segment_clean

/-- A path is the address of a node of a tree as it is written, empty segments aside. -/
structure Path.Addresses (root : Value) (path : String) (address : Address) (node : Value) :
    Prop where
  leads : root.Leads address node
  writable : address.Writable
  written : address.path = Path.normal path

theorem Path.Addresses.segments_eq {root node : Value} {path : String} {address : Address}
    (h : Path.Addresses root path address node) : address.segments = Path.segments path := by
  rw [← Path.segments_normal, ← h.written, h.writable.segments_path]

/-- Looking up paths in a tree finds exactly its nodes: the address of a node, written as a path,
resolves to the node; a path that resolves to anything is the address of that very node, empty
segments aside, and of no other place; and paths that differ in more than empty segments do not
come to the same place. -/
theorem paths_find_nodes (root : Value) (hroot : root.Unambiguous) :
    (∀ (address : Address) node, root.Leads address node → address.Writable →
      Path.resolve root .null address.path = .ok node) ∧
    (∀ path node, Path.resolve root .null path = .ok node → node ≠ .undefined →
      ∃! address, Path.Addresses root path address node) ∧
    (∀ path path' address address' node node', Path.Addresses root path address node →
      Path.Addresses root path' address' node' → Path.normal path ≠ Path.normal path' →
      address ≠ address') := by
  refine ⟨fun address node hleads hwritable => ?_, fun path node hresolve hnode => ?_,
    fun path path' address address' node node' h h' hne => ?_⟩
  · rw [Path.resolve, hwritable.segments_path]
    exact hleads.walk_eq hroot hwritable
  · obtain ⟨address, hleads, hwritable, hsegments⟩ :=
      Path.exists_leads_of_walk (fun _ h => Path.of_mem_segments h) hresolve hnode
    have hwritten : address.path = Path.normal path := by rw [Address.path, hsegments, Path.normal]
    refine ⟨address, ⟨hleads, hwritable, hwritten⟩, fun other hother => ?_⟩
    exact hother.leads.address_unique hroot hleads (hother.segments_eq.trans hsegments.symm)
  · rintro rfl
    exact hne (h.written.symm.trans h'.written)

/-- A list of tuples in a mapping, beside a name that looks like a position. -/
def orderTree : Value :=
  .map [(.str "01", .str "first"), (.str "items", .list [.tuple [.str "tea", .null]])]

theorem orderTree_unambiguous : orderTree.Unambiguous := by
  have hleaf : (Value.str "tea").Unambiguous ∧ (Value.str "first").Unambiguous ∧
      Value.null.Unambiguous := by
    refine ⟨?_, ?_, ?_⟩ <;>
      exact Value.unambiguous_of_children (fun _ h => by cases h) fun _ _ h => by cases h
  have htuple : (Value.tuple [.str "tea", .null]).Unambiguous := by
    refine Value.unambiguous_of_children (fun _ h => by cases h) fun turn child hchild => ?_
    cases hchild with
    | component hget =>
      rcases List.mem_cons.1 (List.mem_of_getElem? hget) with rfl | hrest
      · exact hleaf.1
      · rw [List.mem_singleton.1 hrest]
        exact hleaf.2.2
  have hlist : (Value.list [.tuple [.str "tea", .null]]).Unambiguous := by
    refine Value.unambiguous_of_children (fun _ h => by cases h) fun turn child hchild => ?_
    cases hchild with
    | item hget =>
      rw [List.mem_singleton.1 (List.mem_of_getElem? hget)]
      exact htuple
  refine Value.unambiguous_of_children (fun entries h name v w hv hw => ?_)
    fun turn child hchild => ?_
  · cases h
    simp only [List.mem_cons, List.not_mem_nil, or_false, Prod.mk.injEq, Value.str.injEq] at hv hw
    rcases hv with ⟨rfl, rfl⟩ | ⟨rfl, rfl⟩ <;> rcases hw with ⟨hname, rfl⟩ | ⟨hname, rfl⟩
    · rfl
    · exact absurd hname (by decide)
    · exact absurd hname (by decide)
    · rfl
  · cases hchild with
    | entry hmem =>
      simp only [List.mem_cons, List.not_mem_nil, or_false, Prod.mk.injEq] at hmem
      rcases hmem with ⟨-, rfl⟩ | ⟨-, rfl⟩
      · exact hleaf.2.1
      · exact hlist

/-- The tea is found at its address, also with more slashes, but not with a zero in front. -/
theorem paths_find_nodes_order :
    orderTree.Unambiguous ∧
    Path.resolve orderTree .null "/items/0/0" = .ok (.str "tea") ∧
    (∃! address, Path.Addresses orderTree "items//0/0/" address (.str "tea")) ∧
    Path.resolve orderTree .null "/items/00/0" = .ok .undefined := by
  have hfinds := paths_find_nodes orderTree orderTree_unambiguous
  have hitems : orderTree.Child (.key "items") (.list [.tuple [.str "tea", .null]]) :=
    .entry (List.mem_cons_of_mem _ List.mem_cons_self)
  have hleads : orderTree.Leads [.key "items", .position 0, .position 0] (.str "tea") :=
    .down hitems (.down (.item rfl) (.down (.component rfl) .here))
  have hwritable : Address.Writable [.key "items", .position 0, .position 0] := by decide
  have hloose : Path.resolve orderTree .null "items//0/0/" = .ok (.str "tea") := by cbv
  refine ⟨orderTree_unambiguous, hfinds.1 _ _ hleads hwritable, ?_, by cbv⟩
  exact hfinds.2.1 _ _ hloose (by rintro ⟨⟩)

end LiveValue
