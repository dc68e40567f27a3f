import LiveValue.Context
import LiveValue.Host.Stock

/-!
# Kinds of host functions

What the host promises about its functions, and the built-in and ready-made functions that keep
these promises.

* `HostFunction.IgnoresSettings`: the program of the function does not depend on the settings;
* `HostFunction.IgnoresDepth`, `HostFunction.IgnoresScope`, `HostFunction.IgnoresVariables`: the same
  for the depth, the scope and what is bound around the evaluation;
* `HostFunction.PassesOn`: the function is stopped by faults of a kind, as if it did not catch any;
* `HostFunction.LeavesFree`: the function never binds a variable;
* `HostFunction.Deterministic`: the program goes the same way however many notes were taken before.
-/

namespace LiveValue

/-! ## Functions of a table and of a context -/

theorem Entries.mem_of_find? {κ α : Type} [DecidableEq κ] {key : κ} {a : α} {l : List (κ × α)}
    (h : find? key l = some a) : (key, a) ∈ l := by
  induction l with
  | nil => cases h
  | cons head rest ih =>
    rw [find?] at h
    split at h
    · next hkey =>
      cases h
      subst hkey
      exact List.mem_cons_self
    · exact List.mem_cons_of_mem _ (ih h)

namespace Table

variable {α : Type}

def All (P : α → Prop) (t : Table α) : Prop := ∀ entry ∈ t.entries, P entry.2

theorem All.mono {P Q : α → Prop} {t : Table α} (h : t.All P) (hPQ : ∀ a, P a → Q a) : t.All Q :=
  fun entry he => hPQ _ (h entry he)

theorem All.of_get? {P : α → Prop} {t : Table α} (h : t.All P) {name : String} {a : α}
    (hget : t.get? name = some a) : P a :=
  h (name, a) (Entries.mem_of_find? hget)

end Table

namespace Context

/-- What holds of the given functions and of the built-in ones holds of all that can be called. -/
theorem of_get?_registry {P : HostFunction → Prop} {ctx : Context} (hgiven : ctx.functions.All P)
    (hbuiltin : Builtin.table.All P) {name : String} {f : HostFunction}
    (h : ctx.registry.get? name = some f) : P f := by
  unfold Registry.get? at h
  split at h
  · next found => cases h; exact hgiven.of_get? found
  · exact hbuiltin.of_get? h

end Context

namespace Builtin

theorem all_table {P : HostFunction → Prop} (hnow : P now) (hconcat : P concat) (hadd : P add)
    (hformat : P formatString) : table.All P := by
  intro entry he
  simp only [table, List.mem_cons, List.not_mem_nil, or_false] at he
  rcases he with rfl | rfl | rfl | rfl
  · exact hnow
  · exact hconcat
  · exact hadd
  · exact hformat

end Builtin

/-! ## Functions that ignore the settings -/

namespace HostFunction

/-- The program of the function is the same under all settings. -/
def IgnoresSettings (f : HostFunction) : Prop :=
  ∀ (args : List Value) (view : View) (settings : Settings),
    f args { view with settings } = f args view

end HostFunction

theorem Builtin.ignoresSettings : table.All HostFunction.IgnoresSettings :=
  all_table (fun _ _ _ => rfl) (fun _ _ _ => rfl) (fun _ _ _ => rfl) fun _ _ _ => rfl

theorem Stock.ignoresSettings (name : String) (stock : Stock) :
    HostFunction.IgnoresSettings (stock.function name) := by
  intro args view settings
  cases stock <;> rfl

/-! ## Functions that ignore the depth, the scope or variables -/

namespace HostFunction

/-- The program of the function is the same at every depth. -/
def IgnoresDepth (f : HostFunction) : Prop :=
  ∀ (args : List Value) (view : View) (depth : Int), f args { view with depth } = f args view

/-- The program of the function is the same in every scope. -/
def IgnoresScope (f : HostFunction) : Prop :=
  ∀ (args : List Value) (view : View) (scope : Value), f args { view with scope } = f args view

/-- The program of the function is the same whatever is bound around the evaluation. -/
def IgnoresVariables (f : HostFunction) : Prop :=
  ∀ (args : List Value) (view : View) (bound : LogVariables),
    f args { view with bound } = f args view

end HostFunction

theorem Builtin.ignoresDepth : table.All HostFunction.IgnoresDepth :=
  all_table (fun _ _ _ => rfl) (fun _ _ _ => rfl) (fun _ _ _ => rfl) fun _ _ _ => rfl

theorem Builtin.ignoresScope : table.All HostFunction.IgnoresScope :=
  all_table (fun _ _ _ => rfl) (fun _ _ _ => rfl) (fun _ _ _ => rfl) fun _ _ _ => rfl

theorem Builtin.ignoresVariables : table.All HostFunction.IgnoresVariables :=
  all_table (fun _ _ _ => rfl) (fun _ _ _ => rfl) (fun _ _ _ => rfl) fun _ _ _ => rfl

/-- Only a function that tells the depth or takes a note of it depends on it. -/
theorem Stock.ignoresDepth (name : String) {stock : Stock} (hdepth : stock ≠ .depth)
    (hrecord : stock ≠ .record) : HostFunction.IgnoresDepth (stock.function name) := by
  intro args view depth
  cases stock with
  | depth => exact absurd rfl hdepth
  | record => exact absurd rfl hrecord
  | _ => rfl

/-- Only a function that tells the scope depends on it. -/
theorem Stock.ignoresScope (name : String) {stock : Stock} (h : stock ≠ .scope) :
    HostFunction.IgnoresScope (stock.function name) := by
  intro args view scope
  cases stock with
  | scope => exact absurd rfl h
  | _ => rfl

theorem Stock.ignoresVariables (name : String) (stock : Stock) :
    HostFunction.IgnoresVariables (stock.function name) := by
  intro args view bound
  cases stock <;> rfl

/-! ## What functions ask for -/

namespace Program

/-- Whatever the program asks for, on every way that it may go, the place where it asks and what it
makes of the answer have a property. -/
def Asks (P : Place → (Except Fault Value → Program) → Prop) : Program → Prop
  | .done _ | .fail _ => True
  | .ask place _ next => P place next ∧ ∀ result, (next result).Asks P
  | .record _ next => ∀ taken, (next taken).Asks P

variable {P : Place → (Except Fault Value → Program) → Prop}

theorem asks_ofExcept (result : Except Fault Value) : (ofExcept result).Asks P := by
  cases result <;> trivial

theorem asks_request {place : Place} {r : Request} (h : P place ofExcept) :
    (request place r).Asks P :=
  ⟨h, asks_ofExcept⟩

theorem asks_withText {text : Except Fault (List Char)} {next : List Char → Program}
    (h : ∀ s, (next s).Asks P) : (withText text next).Asks P := by
  cases text with
  | ok s => exact h s
  | error fault => trivial

end Program

/-- Where all built-in functions ask from is where they were called, and they pass every fault on. -/
theorem Builtin.asks {P : Place → (Except Fault Value → Program) → Prop}
    (h : P .here Program.ofExcept) : table.All fun f => ∀ args view, (f args view).Asks P :=
  all_table (fun _ _ => Program.asks_ofExcept _)
    (fun _ _ => Program.asks_withText fun _ => trivial)
    (fun _ _ => Program.asks_ofExcept _)
    fun _ _ => Program.asks_withText fun _ => Program.asks_request h

/-- The ready-made functions pass every fault on as well, and only ask from another scope. -/
theorem Stock.asks {P : Place → (Except Fault Value → Program) → Prop}
    (h : ∀ scope, P ⟨scope, []⟩ Program.ofExcept) (name : String) (stock : Stock)
    (args : List Value) (view : View) : (stock.function name args view).Asks P := by
  have hask {place : Place} (hplace : place.blocks = []) (r : Request) :
      (Program.request place r).Asks P := by
    obtain ⟨scope, _⟩ := place
    subst hplace
    exact Program.asks_request (h scope)
  cases stock with
  | const | args | count | first | raise | depth | scope => trivial
  | upper | length | mask => exact Program.asks_withText fun _ => trivial
  | template | resolve => exact hask rfl _
  | format | deref | expr | rescope => exact Program.asks_withText fun _ => hask rfl _
  | record => exact fun _ => trivial

/-! ## Functions that pass faults on -/

namespace Fault

/-- The fault says that the limit of the depth was met, and what the limit is. -/
def IsNesting : Fault → Prop
  | .nesting .. => True
  | _ => False

/-- The fault says that templates are strict, and that a placeholder is never closed. -/
def IsUnterminated : Fault → Prop
  | .unterminated .. => True
  | _ => False

end Fault

/-- Where the engine stops with a fault of a kind, so does the program. -/
def Program.PassesOn (kind : Fault → Prop) : Program → Prop :=
  Asks fun _ next => ∀ fault, kind fault → next (.error fault) = .fail fault

/-- The function does not catch faults of a kind. One that does can tell from such a fault what the
engine was stopped by. -/
def HostFunction.PassesOn (kind : Fault → Prop) (f : HostFunction) : Prop :=
  ∀ args view, (f args view).PassesOn kind

theorem Builtin.passesOn (kind : Fault → Prop) : table.All (HostFunction.PassesOn kind) :=
  asks fun _ _ => rfl

theorem Stock.passesOn (kind : Fault → Prop) (name : String) (stock : Stock) :
    HostFunction.PassesOn kind (stock.function name) :=
  asks (fun _ _ _ => rfl) name stock

/-- The program never asks for anything inside a block that binds the variable. -/
def Program.LeavesFree (label : String) : Program → Prop :=
  Asks fun place _ => ∀ block ∈ place.blocks, label ∉ block.map Prod.fst

/-- The function never binds the variable. -/
def HostFunction.LeavesFree (label : String) (f : HostFunction) : Prop :=
  ∀ args view, (f args view).LeavesFree label

theorem Builtin.leavesFree (label : String) :
    table.All (HostFunction.LeavesFree label) :=
  asks nofun

theorem Stock.leavesFree (label name : String) (stock : Stock) :
    HostFunction.LeavesFree label (stock.function name) :=
  asks (fun _ => nofun) name stock

/-! ## Deterministic functions -/

namespace Program

/-- The program goes on in the same way whatever number of notes it is told. -/
def Steady : Program → Prop
  | .done _ | .fail _ => True
  | .ask _ _ next => ∀ result, (next result).Steady
  | .record _ next => (∀ i j, next i = next j) ∧ ∀ taken, (next taken).Steady

theorem steady_ofExcept (result : Except Fault Value) : (ofExcept result).Steady := by
  cases result <;> trivial

theorem steady_request (place : Place) (r : Request) : (request place r).Steady :=
  steady_ofExcept

theorem steady_withText {text : Except Fault (List Char)} {next : List Char → Program}
    (h : ∀ s, (next s).Steady) : (withText text next).Steady := by
  cases text with
  | ok s => exact h s
  | error fault => trivial

end Program

namespace HostFunction

/-- The arguments and the view alone decide what the function does. -/
def Deterministic (f : HostFunction) : Prop := ∀ args view, (f args view).Steady

end HostFunction

theorem Builtin.deterministic : table.All HostFunction.Deterministic :=
  all_table (fun _ _ => Program.steady_ofExcept _)
    (fun _ _ => Program.steady_withText fun _ => trivial)
    (fun _ _ => Program.steady_ofExcept _)
    fun _ _ => Program.steady_withText fun _ => Program.steady_request _ _

/-- Only a function that tells the number of notes depends on the past. -/
theorem Stock.deterministic (name : String) {stock : Stock} (h : stock ≠ .record) :
    HostFunction.Deterministic (stock.function name) := by
  intro args view
  cases stock with
  | record => exact absurd rfl h
  | const | args | count | first | raise | depth | scope => trivial
  | upper | length | mask => exact Program.steady_withText fun _ => trivial
  | template | resolve => exact Program.steady_request _ _
  | format | deref | expr | rescope =>
    exact Program.steady_withText fun _ => Program.steady_request _ _

end LiveValue
