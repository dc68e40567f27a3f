import LiveValue.Config.Environment
import LiveValue.Config.Load
import LiveValue.Settings.Validation
import LiveValue.Yaml.Document

/-!
# Ready-made libraries

One way to do what the configuration is left to libraries for. Texts are read in a part of the
language only: without anchors, tags, text blocks, keys that are no scalars, and dates.
-/

namespace LiveValue.Config

namespace Stock

/-- A text as a value. An integer of more digits than can be converted is an error of the
language. -/
def readText (text : String) : Except Unread Value :=
  (Yaml.read text).mapError fun
    | .malformed => .malformed
    | .unconvertible => .raised (.named "ValueError")

def fileOption : String := "_env_file"

/-- Whether a value names files of variables: nothing, a path, or paths one after the other. -/
def namesFiles : Value → Bool
  | .null | .str _ => true
  | .list items | .tuple items | .set items => items.all fun
    | .str _ => true
    | _ => false
  | .map entries => hasOnlyNames entries
  | _ => false

/-- Of the options only the one for files of variables is looked at, and nothing is read from such
files. -/
def takeArguments (given : Layer) : Except Raised Layer :=
  match Value.field? fileOption given with
  | some files => if namesFiles files then .ok given else .error (.named "TypeError")
  | none => .ok given

def unparsedMessage (field : String) : String :=
  "error parsing value for field \"" ++ field ++ "\" from source \"EnvSettingsSource\""

def readEnvironment (environment : List (String × String)) : Except Raised Layer :=
  match Environment.readSection? environment with
  | none => .error (.unparsed sectionName)
  | some none => .ok []
  | some (some value) => .ok [(.str sectionName, value)]

def construct (entries : Layer) : Except Unmade Settings :=
  if hasOnlyNames entries then
    (Settings.ofSection .lax (Value.field? sectionName entries)).mapError fun violations =>
      .invalid (violations.inside sectionName)
  else .error (.raised .keyword)

end Stock

/-- The ready-made libraries. -/
def Libraries.stock : Libraries where
  conversions := .lax
  readText := Stock.readText
  takeArguments := Stock.takeArguments
  readEnvironment _ := Stock.readEnvironment
  combine := layeredAll
  construct := Stock.construct

end LiveValue.Config
