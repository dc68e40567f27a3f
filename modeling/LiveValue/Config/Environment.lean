import LiveValue.Config.Libraries
import LiveValue.Text.Pieces
import LiveValue.Value.Json

/-!
# Configuration from the environment

A variable may hold the whole section as JSON, and further variables may set single fields of it,
their names spelled behind two underscores. The case of names does not matter.
-/

namespace LiveValue.Config

namespace Environment

/-- A name in small letters. -/
def folded (name : String) : List Char := name.toList.map Char.toLower

/-- The folded name of the variable for the whole section. -/
def sectionVariable : List Char := folded (environmentPrefix ++ sectionName)

/-- The pieces of a name between double underscores. -/
def pieces : List Char → Text.Pieces
  | '_' :: '_' :: rest => (pieces rest).cut
  | c :: rest => (pieces rest).push [c]
  | [] => .single []

/-- The keys that lead to a field, if a variable is for one. -/
def keys? (name : List Char) : Option (String × List String) :=
  let start := sectionVariable ++ ['_', '_']
  if start.isPrefixOf name then
    let keys := pieces (name.drop start.length)
    some (String.ofList keys.first, keys.more.map String.ofList)
  else none

/-- Writes a value where keys lead to. A value that stands in the way stays. -/
def place (value : Value) : String → List String → Layer → Layer
  | last, [], layer => Value.insertEntry (.str last) value layer
  | key, next :: more, layer =>
      match Value.field? key layer with
      | none => Value.insertEntry (.str key) (.map (place value next more [])) layer
      | some (.map inner) =>
          Value.insertEntry (.str key) (.map (place value next more inner)) layer
      | some _ => layer

/-- The fields that single variables set. -/
def fields (environment : List (String × String)) : Layer :=
  environment.foldl (fun layer (name, value) =>
    match keys? (folded name) with
    | some (first, more) => place (.str value) first more layer
    | none => layer) []

/-- The name of a field of the settings, in the spelling of the settings. -/
def fieldName (name : String) : String :=
  let known := [Settings.maxDepthField, Settings.strictTemplatesField]
  (known.find? fun field => folded field == folded name).getD name

/-- A section with the names of its fields in the spelling of the settings. -/
def withFieldNames (entries : Layer) : Value :=
  .ofEntries (entries.map fun (key, value) => match key with
    | .str name => (.str (fieldName name), value)
    | key => (key, value))

/-- The text of the variable for the whole section; of several spellings the last counts. -/
def sectionText? (environment : List (String × String)) : Option String :=
  (environment.reverse.find? fun (name, _) => folded name == sectionVariable).map Prod.snd

/-- The section that the environment gives, if it gives one; nothing if the variable for it holds
no JSON. Only a mapping takes the single fields over it, and `null` gives no section at all. -/
def readSection? (environment : List (String × String)) : Option (Option Value) :=
  match sectionText? environment with
  | none => match fields environment with
    | [] => some none
    | entries => some (some (withFieldNames entries))
  | some text => do
      match ← Value.ofJson? text with
      | .null => return none
      | .map entries => return some (withFieldNames (layered (fields environment) entries))
      | value => return some value

end Environment

end LiveValue.Config
