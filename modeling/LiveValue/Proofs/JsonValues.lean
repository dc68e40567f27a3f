import LiveValue.Proofs.Addresses
import LiveValue.Proofs.CallOrder
import LiveValue.Proofs.EventContext
import LiveValue.Proofs.Promises

/-!
# JSON values and gaps in lists

JSON has no undefined value. Data that is JSON yields JSON again or nothing at all, wherever paths
lead and whatever descriptors stand in it; and a host function that makes lists of its arguments
leaves a gap in a list where an argument is undefined, which is the one way to get an undefined value
inside of another value.

* `Value.JsonLike`, `Value.IsJson`: JSON values, with gaps in their lists and without;
* `Value.HasUndefined`: an undefined value at any depth;
* `Path.resolve_isAnswer`, `Descriptor.isJson_args`: what is found in JSON;
* `Value.BuiltFrom`, `HostFunction.Builds`, `HostFunction.ReturnsJson`: functions that return JSON or
  lists of their arguments.
-/

namespace LiveValue

open Template

/-! ## JSON values -/

namespace Value

/-- The value is JSON, save that its lists may have gaps, which are undefined items, in case `gaps`
holds. Every mapping has distinct names as keys, and all numbers are let in. -/
inductive JsonLike (gaps : Prop) : Value → Prop
  | null : JsonLike gaps .null
  | bool (b : Bool) : JsonLike gaps (.bool b)
  | number (n : Number) : JsonLike gaps (.number n)
  | str (s : String) : JsonLike gaps (.str s)
  | list {items : List Value} :
      (.undefined ∈ items → gaps) → (∀ item ∈ items, item ≠ .undefined → JsonLike gaps item) →
      JsonLike gaps (.list items)
  | map {entries : List (Value × Value)} :
      (∀ entry ∈ entries, entry.1.IsString) → (entries.map Prod.fst).Nodup →
      (∀ entry ∈ entries, JsonLike gaps entry.2) → JsonLike gaps (.map entries)

/-- The value is JSON. Every number counts as JSON, NaN and the infinities too, although there is no
JSON text for these. -/
abbrev IsJson (v : Value) : Prop := v.JsonLike False

/-- The value is JSON with or without gaps, or nothing at all. -/
def IsAnswer (gaps : Prop) (v : Value) : Prop := v = .undefined ∨ v.JsonLike gaps

/-- The value is undefined or holds an undefined value, at any depth. -/
inductive HasUndefined : Value → Prop
  | here : HasUndefined .undefined
  | list {items : List Value} {item : Value} :
      item ∈ items → HasUndefined item → HasUndefined (.list items)
  | tuple {items : List Value} {item : Value} :
      item ∈ items → HasUndefined item → HasUndefined (.tuple items)
  | set {items : List Value} {item : Value} :
      item ∈ items → HasUndefined item → HasUndefined (.set items)
  | key {entries : List (Value × Value)} {entry : Value × Value} :
      entry ∈ entries → HasUndefined entry.1 → HasUndefined (.map entries)
  | value {entries : List (Value × Value)} {entry : Value × Value} :
      entry ∈ entries → HasUndefined entry.2 → HasUndefined (.map entries)

variable {gaps gaps' : Prop} {v : Value}

theorem JsonLike.mono (hgaps : gaps → gaps') (h : v.JsonLike gaps) : v.JsonLike gaps' := by
  induction h with
  | null => exact .null
  | bool b => exact .bool b
  | number n => exact .number n
  | str s => exact .str s
  | list hundefined _ ih => exact .list (fun hmem => hgaps (hundefined hmem)) ih
  | map hkeys hdistinct _ ih => exact .map hkeys hdistinct ih

theorem JsonLike.ne_undefined (h : v.JsonLike gaps) : v ≠ .undefined := by
  rintro rfl
  cases h

theorem IsString.jsonLike (h : v.IsString) : v.JsonLike gaps := by
  obtain ⟨s, rfl⟩ := h
  exact .str s

theorem IsJson.item {items : List Value} (h : (Value.list items).IsJson) {item : Value}
    (hitem : item ∈ items) : item.IsJson := by
  cases h with
  | list hundefined hitems => exact hitems item hitem fun hnone => hundefined (hnone ▸ hitem)

theorem JsonLike.field {entries : List (Value × Value)} (h : (Value.map entries).JsonLike gaps)
    {name : String} (hfield : field? name entries = some v) : v.JsonLike gaps := by
  cases h with
  | map _ _ hvalues => exact hvalues _ (mem_of_field? hfield)

theorem jsonLike_ofFields {fields : List (String × Value)}
    (hdistinct : (fields.map Prod.fst).Nodup) (h : ∀ field ∈ fields, field.2.JsonLike gaps) :
    (ofFields fields).JsonLike gaps := by
  refine .map (fun entry hentry => ?_) ?_ fun entry hentry => ?_
  · obtain ⟨field, -, rfl⟩ := List.mem_map.1 hentry
    exact ⟨field.1, rfl⟩
  · have hkeys : (fields.map fun field => (str field.1, field.2)).map Prod.fst
        = (fields.map Prod.fst).map str := by simp
    exact hkeys ▸ hdistinct.map fun _ _ hsame => by cases hsame; rfl
  · obtain ⟨field, hfield, rfl⟩ := List.mem_map.1 hentry
    exact h field hfield

theorem JsonLike.field_alone {v : Value} (h : v.JsonLike gaps) (name : String) :
    (ofFields [(name, v)]).JsonLike gaps :=
  jsonLike_ofFields (List.nodup_singleton name) (List.forall_mem_singleton.2 h)

/-- JSON holds no undefined value. -/
theorem IsJson.not_hasUndefined (h : v.IsJson) : ¬v.HasUndefined := by
  induction h with
  | list hnone _ ih =>
    intro h
    cases h with
    | list hmem hitem => exact ih _ hmem (fun hundefined => hnone (hundefined ▸ hmem)) hitem
  | map hkeys _ _ ih =>
    intro h
    cases h with
    | key hmem hkey =>
      obtain ⟨s, hs⟩ := hkeys _ hmem
      rw [hs] at hkey
      cases hkey
    | value hmem hvalue => exact ih _ hmem hvalue
  | _ => exact nofun

end Value

/-! ## Paths and descriptors in JSON -/

namespace Path

variable {gaps : Prop} {root cursor v : Value}

theorem step_isAnswer {segment : String} (hcursor : cursor.IsAnswer gaps)
    (h : step cursor segment = .ok v) : v.IsAnswer gaps := by
  rcases hcursor with rfl | hcursor
  · cases h
    exact .inl rfl
  · cases hcursor with
    | list _ hitems =>
      by_cases hnone : v = .undefined
      · exact .inl hnone
      · obtain ⟨index, hget, -⟩ := exists_position_of_step_list h hnone
        exact .inr (hitems v (List.mem_of_getElem? hget) hnone)
    | @map entries hkeys hdistinct hvalues =>
      have hmap : (Value.map entries).JsonLike gaps := .map hkeys hdistinct hvalues
      cases hfield : Value.field? segment entries with
      | none =>
        rw [step, hfield] at h
        cases h
        exact .inl rfl
      | some found =>
        rw [step, hfield] at h
        cases h
        exact .inr (hmap.field hfield)
    | _ =>
      cases h
      exact .inl rfl

theorem walk_isAnswer {segments : List String} (hroot : root.IsAnswer gaps)
    (h : walk root segments = .ok v) : v.IsAnswer gaps := by
  induction segments generalizing root with
  | nil =>
    cases h
    exact hroot
  | cons segment rest ih =>
    rw [walk, List.foldlM_cons, bind_eq_ok] at h
    obtain ⟨next, hstep, hwalk⟩ := h
    exact ih (step_isAnswer hroot hstep) hwalk

/-- A path leads from JSON to JSON or to nothing. -/
theorem resolve_isAnswer {dataModel scope : Value} {path : String}
    (hdata : dataModel.JsonLike gaps) (hscope : scope.JsonLike gaps)
    (h : resolve dataModel scope path = .ok v) : v.IsAnswer gaps := by
  refine walk_isAnswer (.inr ?_) h
  unfold source
  split
  · exact hdata
  · split
    · exact hdata
    · exact hscope

end Path

namespace Descriptor

/-- The arguments of a call that is described by JSON are JSON. -/
theorem isJson_args {value : Value} {c : Call} (hjson : value.IsJson)
    (h : ofValue value = .call c) : ∀ arg ∈ c.args, arg.IsJson := by
  obtain ⟨entries, rfl, hargs⟩ := ofValue_eq_call h
  rw [hargs]
  cases hfield : Value.field? "args" entries with
  | none => exact fun arg harg => absurd harg List.not_mem_nil
  | some written =>
    have hwritten : written.IsJson := hjson.field hfield
    cases written with
    | list items => exact fun arg harg => hwritten.item harg
    | tuple items => cases hwritten
    | bytes octets => cases hwritten
    | _ => exact fun arg harg => absurd harg List.not_mem_nil

end Descriptor

theorem Template.Argument.jsonLike_of_keyword? {gaps : Prop} {text : String} {v : Value}
    (h : keyword? text = some v) : v.JsonLike gaps := by
  unfold keyword? at h
  split at h
  · cases h
    exact .bool true
  · split at h
    · cases h
      exact .bool false
    · split at h
      · cases h
        exact .null
      · cases h

/-- A written literal is a scalar of JSON or nothing. -/
theorem Template.Argument.literalValue_isAnswer {gaps : Prop} {text : String} {v : Value}
    (h : literalValue text = .ok v) : v.IsAnswer gaps := by
  unfold literalValue at h
  split at h
  · cases h
    exact .inr (.str _)
  · split at h
    · next hkeyword =>
      cases h
      exact .inr (jsonLike_of_keyword? hkeyword)
    · split at h
      · cases h
        exact .inl rfl
      · obtain ⟨n?, -, hn⟩ := bind_eq_ok.1 h
        cases n? with
        | some n =>
          cases hn
          exact .inr (.number n)
        | none =>
          cases hn
          exact .inr (.str text)

/-! ## Functions that build their results -/

namespace Value

/-- The value is JSON, or one of the arguments, or a list of such values. -/
inductive BuiltFrom (args : List Value) : Value → Prop
  | json {v : Value} : v.IsJson → BuiltFrom args v
  | argument {v : Value} : v ∈ args → BuiltFrom args v
  | list {items : List Value} : (∀ item ∈ items, BuiltFrom args item) → BuiltFrom args (.list items)

variable {gaps : Prop} {args : List Value} {v : Value}

theorem BuiltFrom.undefined_mem (h : BuiltFrom args .undefined) : .undefined ∈ args := by
  cases h with
  | json hjson => exact absurd rfl hjson.ne_undefined
  | argument hmem => exact hmem

/-- What is built from answers is an answer, with gaps where an argument is undefined. -/
theorem BuiltFrom.isAnswer (h : BuiltFrom args v) (hargs : ∀ arg ∈ args, arg.IsAnswer gaps)
    (hgaps : .undefined ∈ args → gaps) : v.IsAnswer gaps := by
  induction h with
  | json hjson => exact .inr (hjson.mono False.elim)
  | argument hmem => exact hargs _ hmem
  | list hitems ih =>
    refine .inr (.list (fun hmem => hgaps (hitems _ hmem).undefined_mem) fun item hmem hsome => ?_)
    exact (ih item hmem).resolve_left hsome

end Value

/-- What a request may be answered with: a template is expanded to a string, and what functions
there are is said in JSON. -/
def Request.MayGet : Request → Value → Prop
  | .format _, answer => answer.IsString
  | .lookup _, answer | .functions, answer => answer.IsJson
  | .resolve _, _ | .evaluate _, _ => True

namespace HostFunction

/-- Whatever the function asks for, it returns JSON, or an argument, or a list of such values. -/
def Builds (f : HostFunction) : Prop :=
  ∀ args view, (f args view).Gives Request.MayGet (Value.BuiltFrom args)

/-- Whatever the function is given and asks for, it returns JSON. -/
def ReturnsJson (f : HostFunction) : Prop :=
  ∀ args view, (f args view).Gives Request.MayGet Value.IsJson

theorem ReturnsJson.builds {f : HostFunction} (h : f.ReturnsJson) : f.Builds :=
  fun args view => (h args view).mono fun _ hjson => .json hjson

end HostFunction

theorem Builtin.returnsJson : table.All HostFunction.ReturnsJson := by
  refine all_table (fun args view => ?_) (fun args view => ?_) (fun args view => ?_)
    fun args view => ?_
  · refine Program.gives_ofExcept fun v h => ?_
    obtain ⟨s, -, rfl⟩ := map_eq_ok.1 h
    exact .str s
  · exact Program.gives_withText fun s => .str _
  · refine Program.gives_ofExcept fun v h => ?_
    obtain ⟨n, -, rfl⟩ := map_eq_ok.1 h
    exact .number n
  · exact Program.gives_withText fun s => Program.gives_request fun v hv => hv.jsonLike

end LiveValue
