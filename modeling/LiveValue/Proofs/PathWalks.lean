import LiveValue.Path
import Mathlib

/-!
# Walks along joined paths

A slash between two paths separates their segments, and a walk along joined paths is one walk after
the other.

* `Path.segments_intercalate`: the segments of paths that are joined by slashes;
* `Path.resolve_append_slash`: looking up a path that goes on behind a slash.
-/

namespace LiveValue

namespace Text.Pieces

/-- A mark between two texts separates their pieces. -/
theorem toList_split_append {isMark : Char → Bool} {mark : Char} (hmark : isMark mark = true)
    (s t : List Char) :
    (split isMark (s ++ mark :: t)).toList =
      (split isMark s).toList ++ (split isMark t).toList := by
  induction s with
  | nil => simp [split, hmark, cut, single, toList]
  | cons c rest ih =>
    rw [List.cons_append, split, split]
    split
    · simpa [cut, toList] using ih
    · simpa [push, toList] using ih

theorem split_eq_single {isMark : Char → Bool} {s : List Char}
    (h : ∀ c ∈ s, isMark c = false) : split isMark s = single s := by
  induction s with
  | nil => rfl
  | cons c rest ih =>
    rw [split, h c List.mem_cons_self, ih fun d hd => h d (List.mem_cons_of_mem _ hd)]
    rfl

end Text.Pieces

namespace Path

/-! ## Segments -/

theorem segments_append_slash (path next : String) :
    segments (path ++ "/" ++ next) = segments path ++ segments next := by
  have htext : (path ++ "/" ++ next).toList = path.toList ++ '/' :: next.toList := by simp
  rw [segments, htext, Text.Pieces.toList_split_append (by decide), List.filter_append,
    List.map_append]
  rfl

theorem segments_slash_append (path : String) : segments ("/" ++ path) = segments path :=
  segments_append_slash "" path

theorem segments_intercalate (paths : List String) :
    segments ("/".intercalate paths) = paths.flatMap segments := by
  induction paths with
  | nil => rfl
  | cons path rest ih =>
    cases rest with
    | nil => simp
    | cons next rest =>
      rw [String.intercalate_cons_cons, segments_append_slash, ih]
      rfl

theorem segments_eq_singleton {segment : String} (hne : segment ≠ "")
    (hslash : '/' ∉ segment.toList) : segments segment = [segment] := by
  have hsplit : Text.Pieces.split (· == '/') segment.toList = .single segment.toList := by
    refine Text.Pieces.split_eq_single fun c hc => ?_
    rw [beq_eq_false_iff_ne]
    rintro rfl
    exact hslash hc
  simp [segments, hsplit, Text.Pieces.single, Text.Pieces.toList, hne]

/-- A segment is never empty and has no slash in it. -/
theorem of_mem_segments {path segment : String} (h : segment ∈ segments path) :
    segment ≠ "" ∧ '/' ∉ segment.toList := by
  obtain ⟨piece, hpiece, rfl⟩ := List.mem_map.1 h
  obtain ⟨hmem, hsome⟩ := List.mem_filter.1 hpiece
  refine ⟨by simpa using hsome, fun hslash => ?_⟩
  rw [String.toList_ofList] at hslash
  have hmark := Text.Pieces.not_mark_of_mem_split hmem hslash
  exact absurd hmark (by decide)

/-! ## Where a path starts -/

theorem isAbsolute_append {path : String} (hne : path ≠ "") (more : String) :
    isAbsolute (path ++ more) = isAbsolute path := by
  have hsome : path.toList ≠ [] := by simpa using hne
  rw [isAbsolute, isAbsolute, String.toList_append, List.head?_append_of_ne_nil _ hsome]

theorem source_append {path : String} (hne : path ≠ "") (dataModel scope : Value)
    (more : String) : source dataModel scope (path ++ more) = source dataModel scope path := by
  unfold source
  rw [isAbsolute_append hne]

theorem source_of_relative {path : String} (h : isAbsolute path = false) {scope : Value}
    (hscope : scope ≠ .null) (dataModel : Value) : source dataModel scope path = scope := by
  unfold source
  split
  · exact absurd rfl hscope
  · rw [h]
    rfl

/-! ## Walks -/

theorem walk_append (source : Value) (segments more : List String) :
    walk source (segments ++ more) = (do walk (← walk source segments) more) :=
  List.foldlM_append

/-- No segment leads on from the undefined value. -/
theorem walk_undefined (segments : List String) : walk .undefined segments = .ok .undefined := by
  induction segments with
  | nil => rfl
  | cons segment rest ih => exact ih

theorem resolve_append_slash {path : String} (hne : path ≠ "") (dataModel scope : Value)
    (next : String) :
    resolve dataModel scope (path ++ "/" ++ next) = (do
      walk (← resolve dataModel scope path) (segments next)) := by
  rw [resolve, segments_append_slash, walk_append, String.append_assoc, source_append hne]
  rfl

/-- Behind a slash a path starts at the root of the data model in any scope. -/
theorem resolve_slash_append (dataModel scope : Value) (path : String) :
    resolve dataModel scope ("/" ++ path) = walk dataModel (segments path) := by
  have habsolute : isAbsolute ("/" ++ path) = true := isAbsolute_append (by decide) path
  have hsource : source dataModel scope ("/" ++ path) = dataModel := by
    unfold source
    split
    · rfl
    · rw [habsolute]
      rfl
  rw [resolve, segments_slash_append, hsource]

end Path

end LiveValue
