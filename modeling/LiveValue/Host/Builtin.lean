import LiveValue.Host.Basic
import LiveValue.Table
import LiveValue.Value.Display
import LiveValue.Value.Numeric

/-!
# Built-in functions

The functions that every evaluation can call, unless a host function hides them.
-/

namespace LiveValue.Builtin

def now : HostFunction := fun _ view => .ofExcept (view.clock.timestamp.map .str)

def concat : HostFunction := fun args _ =>
  .withText (do return (← args.mapM Value.text).flatten) fun s => .done (.str (String.ofList s))

def add : HostFunction := fun args _ => .ofExcept ((Value.sum args).map .number)

def formatString : HostFunction := fun args _ =>
  .withText (args.headD .undefined).text fun s => .request .here (.format (String.ofList s))

/-- All built-in functions under their names. -/
def table : Table HostFunction :=
  ⟨[("now", now), ("concat", concat), ("add", add), ("formatString", formatString)], by decide⟩

end LiveValue.Builtin
