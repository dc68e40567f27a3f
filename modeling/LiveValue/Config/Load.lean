import LiveValue.Config.Libraries
import LiveValue.Log.Event
import LiveValue.Report

/-!
# Loading the configuration

The settings come from an explicit file, the environment, the file of the project and the file of
the user, in this order of priority. All files are read and checked, whichever decides in the end.
-/

namespace LiveValue.Config

/-- Why the configuration cannot be loaded. Only what is reported is an error of its own. -/
inductive Failure where
  | report (report : Report)
  | raised (error : Raised)

/-! ## Loading with a log -/

/-- A part of the loading: its result, and the events on the way. -/
structure Loading (α : Type) where
  result : Except Failure α
  events : List Event

namespace Loading

variable {α β : Type}

protected def bind (m : Loading α) (f : α → Loading β) : Loading β :=
  match m with
  | ⟨.error failure, events⟩ => ⟨.error failure, events⟩
  | ⟨.ok a, events⟩ => ⟨(f a).result, events ++ (f a).events⟩

instance : Monad Loading where
  pure a := ⟨.ok a, []⟩
  bind := Loading.bind

instance : LawfulMonad Loading :=
  LawfulMonad.mk' Loading
    (fun m => by
      rcases m with ⟨_ | _, events⟩
      · rfl
      · exact congrArg (Loading.mk _) (List.append_nil events))
    (fun _ _ => rfl)
    (fun m f g => by
      rcases m with ⟨_ | a, events⟩
      · rfl
      · change Loading.bind (Loading.bind _ f) g = Loading.bind _ fun a => Loading.bind (f a) g
        rcases h : f a with ⟨_ | _, later⟩ <;> simp [Loading.bind, h])

def fail (failure : Failure) : Loading α := ⟨.error failure, []⟩

/-- What a library raises is not caught. -/
def ofExcept (result : Except Raised α) : Loading α := ⟨result.mapError .raised, []⟩

def log (event : Event) : Loading Unit := ⟨.ok (), [event]⟩

end Loading

/-! ## Files -/

/-- A file that may be there: its path, and its text if it is. -/
structure File where
  path : String
  text : Option String

def projectFileName : String := "bindery.yaml"

def projectPath (directory : String) : String := directory ++ "/" ++ projectFileName

def userPath (home : String) : String := home ++ "/.config/bindery/config.yaml"

section

variable (L : Libraries)

/-- The entries of a file with a text: an empty one has none, and what is not a mapping does not
do. -/
def readText (path text : String) : Loading Layer :=
  match L.readText text with
  | .error .malformed =>
      .fail (.report (.config ("Invalid YAML in " ++ path) none (.str path)))
  | .error (.raised error) => .fail (.raised error)
  | .ok .null => do
      Loading.log (.configFileEmpty path)
      return []
  | .ok (.map entries) => return entries
  | .ok value =>
      .fail (.report (.config ("Config file " ++ path ++ " must contain a mapping") none value))

/-- The entries of a file, none if it is not there. -/
def readFile (file : File) : Loading Layer :=
  match file.text with
  | some text => readText L file.path text
  | none => return []

/-- The entries of a file that has to be there. They are the arguments of a call, so that their keys
have to be names. -/
def readExplicit (file : File) : Loading Layer := do
  match file.text with
  | none =>
      .fail (.report (.config ("Config file not found: " ++ file.path) none (.str file.path)))
  | some text => do
      let entries ← readText L file.path text
      if hasOnlyNames entries then return entries else .fail (.raised .keyword)

/-! ## Settings -/

/-- The report of what is wrong with the settings: the first violation. -/
def reportOf (violations : Violations) : Report :=
  let v := violations.first
  .config ("Invalid configuration: " ++ v.message) (some v.location) v.input

def settingsOf (entries : Layer) : Loading Settings :=
  match L.construct entries with
  | .ok settings => return settings
  | .error (.invalid violations) => .fail (.report (reportOf violations))
  | .error (.raised error) => .fail (.raised error)

/-- Where the configuration comes from. -/
structure Sources where
  explicit : Option File
  environment : List (String × String)
  project : File
  user : File

/-- The entries of the explicit file. Without one it is worth saying that the project has none
either. -/
def readHighest (sources : Sources) : Loading Layer :=
  match sources.explicit with
  | some file => readExplicit L file
  | none => do
      if sources.project.text.isNone then Loading.log .noProjectConfig
      return []

/-- The settings that the sources give together. -/
def load (sources : Sources) : Loading Settings := do
  let given ← readHighest L sources
  let explicit ← .ofExcept (L.takeArguments given)
  let project ← readFile L sources.project
  let user ← readFile L sources.user
  let environment ← .ofExcept (L.readEnvironment given sources.environment)
  settingsOf L (L.combine [explicit, environment, project, user])

end

end LiveValue.Config
