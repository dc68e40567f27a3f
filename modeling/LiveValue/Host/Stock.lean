import LiveValue.Descriptor
import LiveValue.Host.Basic
import LiveValue.Value.Display

/-!
# Stock host functions

Ready-made host functions: small ones that compute with their arguments, ones that tell about the
view, and ones that go back into the engine. Where one works on a text, that is the shown form of
its first argument.
-/

namespace LiveValue

/-- A ready-made host function. -/
inductive Stock where
  | const (value : Value)
  | args
  | count
  | first
  | upper
  | length
  | mask
  | raise (message : String)
  | format
  | template (text : String)
  | deref
  | resolve
  | expr
  | depth
  | scope
  | rescope (scope : Value)
  | record

namespace Stock

def capital (c : Char) : Char := if c.isLower then c.toUpper else c

def maskDigit (c : Char) : Char := if c.isDigit then 'd' else c

/-- What a stock function does when it is known under a name. -/
def function (name : String) (stock : Stock) : HostFunction := fun args view =>
  let first := args.headD .undefined
  let withText (next : String → Program) : Program :=
    .withText first.text fun s => next (String.ofList s)
  match stock with
  | .const value => .done value
  | .args => .done (.list args)
  | .count => .done (.ofNat args.length)
  | .first => .done first
  | .upper => withText fun s => .done (.str (s.map capital))
  | .length => withText fun s => .done (.ofNat s.length)
  | .mask => withText fun s => .done (.str (s.map maskDigit))
  | .raise message => .fail (.host message)
  | .format => withText fun s => .request .here (.format s)
  | .template text => .request .here (.format text)
  | .deref => withText fun s => .request .here (.resolve (Descriptor.pathTo s))
  | .resolve => .request .here (.resolve first)
  | .expr => withText fun s => .request .here (.evaluate s)
  | .depth => .done (.int view.depth)
  | .scope => .done view.scope
  | .rescope other => withText fun s => .request ⟨some other, []⟩ (.format s)
  | .record => .record ⟨name, view.depth, args⟩ fun taken => .done (.ofNat taken)

end Stock

end LiveValue
