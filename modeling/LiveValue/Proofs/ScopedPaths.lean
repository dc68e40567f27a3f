import LiveValue.Proofs.PathWalks
import LiveValue.Resolver

/-!
# Scopes within scopes

A resolver may take what a path resolves to as its next scope, and so on along a chain of paths.
Looking something up at the end of the chain is the same as looking up all the paths joined by
slashes at its beginning, whatever the scopes on the way are, undefined or without parts: only
`null` is no scope, and from there on everything starts at the data model again.

* `Resolver.enter`: the resolver at the end of a chain of paths;
* `scoped_lookups_join`: lookups there.
-/

namespace LiveValue

namespace Resolver

/-- The resolver at the end of a chain of paths, each of which resolves to the scope in which the
next one is looked up. -/
def enter (r : Resolver) (paths : List String) : Except Fault Resolver :=
  paths.foldlM (fun inner path => do return inner.withScope (← inner.resolvePath path)) r

/-- No path of the chain resolves to `null`. -/
def NeverNull (r : Resolver) : List String → Prop
  | [] => True
  | path :: rest =>
      r.resolvePath path ≠ .ok .null ∧
        ∀ scope, r.resolvePath path = .ok scope → (r.withScope scope).NeverNull rest

variable {r outer : Resolver}

theorem enter_cons (r : Resolver) (path : String) (rest : List String) :
    r.enter (path :: rest) = (do (r.withScope (← r.resolvePath path)).enter rest) := by
  rw [enter, List.foldlM_cons, bind_assoc]
  rfl

theorem enter_concat (r : Resolver) (before : List String) (last : String) :
    r.enter (before ++ [last]) = (do
      let outer ← r.enter before
      return outer.withScope (← outer.resolvePath last)) := by
  rw [enter, List.foldlM_append]
  simp only [List.foldlM_cons, List.foldlM_nil, bind_pure]
  rfl

/-- Only the scope changes along a chain. -/
theorem eq_withScope_of_enter {paths : List String} (h : r.enter paths = .ok outer) :
    outer = r.withScope outer.scope := by
  induction paths generalizing r with
  | nil =>
    cases h
    rfl
  | cons path rest ih =>
    rw [enter_cons] at h
    rcases hscope : r.resolvePath path with fault | scope
    · rw [hscope] at h
      cases h
    · rw [hscope] at h
      have hrest : outer = (r.withScope scope).withScope outer.scope := ih h
      exact hrest

theorem resolvePath_of_relative (hscope : r.scope ≠ .null) {path : String}
    (h : Path.isAbsolute path = false) :
    r.resolvePath path = Path.walk r.scope (Path.segments path) := by
  rw [resolvePath, Path.resolve, Path.source_of_relative h hscope]

/-- A chain that starts in a scope is a single walk from that scope. -/
theorem enter_resolvePath_eq_walk {paths : List String} (hscope : r.scope ≠ .null)
    (hpaths : ∀ path ∈ paths, Path.isAbsolute path = false) (hnull : r.NeverNull paths)
    {next : String} (hnext : Path.isAbsolute next = false) :
    (do (← r.enter paths).resolvePath next) =
      Path.walk r.scope (paths.flatMap Path.segments ++ Path.segments next) := by
  induction paths generalizing r with
  | nil => exact resolvePath_of_relative hscope hnext
  | cons path rest ih =>
    obtain ⟨hpath, hrest⟩ := List.forall_mem_cons.1 hpaths
    obtain ⟨hfirst, hlater⟩ := hnull
    rw [enter_cons, bind_assoc, List.flatMap_cons, List.append_assoc, Path.walk_append,
      ← resolvePath_of_relative hscope hpath]
    rcases hvalue : r.resolvePath path with fault | value
    · rfl
    · have hvalue' : value ≠ .null := by
        rintro rfl
        exact hfirst hvalue
      exact ih hvalue' hrest (hlater value hvalue)

end Resolver

/-- Scopes are taken along a chain of paths as along one path. If none of them is `null`, a path
that is looked up at the end of the chain comes to what all the paths joined by slashes come to at
its beginning, the same fault included. If the last of them is `null`, there is no scope at the end of
the chain, and every path is looked up from the root of the data model. -/
theorem scoped_lookups_join (r : Resolver) :
    (∀ first rest next, first ≠ "" → (∀ path ∈ rest, Path.isAbsolute path = false) →
      Path.isAbsolute next = false → r.NeverNull (first :: rest) →
      (do (← r.enter (first :: rest)).resolvePath next) =
        r.resolvePath ("/".intercalate (first :: rest ++ [next]))) ∧
    (∀ before last outer, r.enter before = .ok outer → outer.resolvePath last = .ok .null →
      ∃ inner, r.enter (before ++ [last]) = .ok inner ∧ inner.scope = .null ∧
        ∀ next, inner.resolvePath next = r.resolvePath ("/" ++ next)) := by
  refine ⟨fun first rest next hfirst hrest hnext hnull => ?_,
    fun before last outer houter hlast => ?_⟩
  · have hsome : rest ++ [next] ≠ [] := List.concat_ne_nil next rest
    obtain ⟨hvalue, hlater⟩ := hnull
    have hjoined : r.resolvePath ("/".intercalate (first :: (rest ++ [next]))) = (do
        Path.walk (← r.resolvePath first)
          (rest.flatMap Path.segments ++ Path.segments next)) := by
      rw [String.intercalate_cons_of_ne_nil hsome, Resolver.resolvePath,
        Path.resolve_append_slash hfirst, Path.segments_intercalate, List.flatMap_append,
        List.flatMap_singleton]
      rfl
    rw [Resolver.enter_cons, bind_assoc, List.cons_append, hjoined]
    rcases hscope : r.resolvePath first with fault | scope
    · rfl
    · have hscope' : (r.withScope scope).scope ≠ .null := by
        rintro rfl
        exact hvalue hscope
      exact Resolver.enter_resolvePath_eq_walk hscope' hrest (hlater scope hscope) hnext
  · have hinner : r.enter (before ++ [last]) = .ok (outer.withScope .null) := by
      rw [Resolver.enter_concat, houter]
      change (do return outer.withScope (← outer.resolvePath last)) = _
      rw [hlast]
      rfl
    refine ⟨outer.withScope .null, hinner, rfl, fun next => ?_⟩
    rw [Resolver.eq_withScope_of_enter houter, Resolver.resolvePath, Resolver.resolvePath,
      Path.resolve_slash_append]
    rfl

/-- A row with a cell that holds a text and one that holds `null`. -/
def tableRow : Value := .map [(.str "cell", .map [(.str "text", .str "A")]), (.str "gap", .null)]

def tableResolver : Resolver where
  dataModel := .map [(.str "rows", .list [tableRow])]
  scope := .null
  functions := Table.empty
  settings := Settings.standard
  clock := ⟨⟨2026, 1, 25⟩, 12, 0, 0, 0, none⟩

/-- Down to the text by way of two scopes, and from `null` back to the root. -/
theorem scoped_lookups_join_table :
    tableResolver.NeverNull ["/rows/0", "cell"] ∧
    (do (← tableResolver.enter ["/rows/0", "cell"]).resolvePath "text") = .ok (.str "A") ∧
    (do (← tableResolver.enter ["/rows/0"]).resolvePath "gap") = .ok .null ∧
    ∃ inner, tableResolver.enter ["/rows/0", "gap"] = .ok inner ∧ inner.scope = .null ∧
      inner.resolvePath "rows/0/cell/text" = .ok (.str "A") := by
  have hjoin := scoped_lookups_join tableResolver
  have hrow : tableResolver.resolvePath "/rows/0" = .ok tableRow := by cbv
  have hcell : (tableResolver.withScope tableRow).resolvePath "cell"
      = .ok (.map [(.str "text", .str "A")]) := by cbv
  have hnull : tableResolver.NeverNull ["/rows/0", "cell"] := by
    refine ⟨by rw [hrow]; rintro ⟨⟩, fun scope hscope => ?_⟩
    obtain rfl : tableRow = scope := Except.ok.inj (hrow.symm.trans hscope)
    exact ⟨by rw [hcell]; rintro ⟨⟩, fun _ _ => trivial⟩
  have htext : tableResolver.resolvePath "/rows/0/cell/text" = .ok (.str "A") := by cbv
  have houter : tableResolver.enter ["/rows/0"] = .ok (tableResolver.withScope tableRow) := by cbv
  obtain ⟨inner, hinner, hscope, hlookup⟩ := hjoin.2 ["/rows/0"] "gap" _ houter (by cbv)
  refine ⟨hnull, ?_, by cbv, inner, hinner, hscope, (hlookup _).trans htext⟩
  rw [hjoin.1 "/rows/0" ["cell"] "text" (by decide) (by decide) (by decide) hnull]
  exact htext

end LiveValue
