import LiveValue.Config.Layer
import LiveValue.Settings.Declaration

/-!
# Libraries for the configuration

The configuration is declared, and put together by libraries: one that reads texts, and one that
gathers what several sources say, merges it and converts it to the declared settings. Neither is
known but by what it is documented to do.
-/

namespace LiveValue.Config

def environmentPrefix : String := "BINDERY_"

def sectionName : String := "engine"

/-- An error of a library, or of the language, that is not one of the configuration. -/
inductive Raised where
  /-- What the environment holds for a field cannot be parsed. -/
  | unparsed (field : String)
  /-- Any other error, by the name of its class. -/
  | named (name : String)
deriving DecidableEq

/-- A call with a keyword that is no text. -/
def Raised.keyword : Raised := .named "TypeError"

/-- Why a text is not read. -/
inductive Unread where
  | malformed
  | raised (error : Raised)

/-- Why settings are not made. -/
inductive Unmade where
  | invalid (violations : Violations)
  | raised (error : Raised)

/-- The libraries. -/
structure Libraries where
  conversions : Conversions
  /-- Reads a text. What it makes that is no `Value`, such as a date, goes by one that stands for
  it. -/
  readText : String → Except Unread Value
  /-- The entries among the arguments of the call that makes the settings. The call has options as
  well, the names of which start with an underscore. -/
  takeArguments : Layer → Except Raised Layer
  /-- What the variables of the environment say, if the call has these arguments. -/
  readEnvironment : Layer → List (String × String) → Except Raised Layer
  /-- Merges what sources say. The first one counts most. -/
  combine : List Layer → Layer
  /-- Makes the declared settings from entries. -/
  construct : Layer → Except Unmade Settings

end LiveValue.Config
