import LiveValue.Engine

/-!
# Resolvers

A resolver answers many questions about one data model. Each question is an evaluation of its own,
from depth zero; only the scope differs between the resolvers made from one another.
-/

namespace LiveValue

/-- A data model with a scope, functions and settings, and what is bound around its questions. -/
structure Resolver where
  dataModel : Value
  scope : Value
  functions : Table HostFunction
  settings : Settings
  clock : Moment
  bound : LogVariables := .unbound

namespace Resolver

def context (r : Resolver) : Context :=
  { Context.root r.dataModel r.scope r.functions r.settings r.clock with bound := r.bound }

def under (r : Resolver) (around : LogVariables) : Resolver := { r with bound := around }

/-- The same resolver inside a block of variables. -/
def within (r : Resolver) (fresh : Fields) : Resolver :=
  r.under (LogVariables.enter fresh r.bound)

def withScope (r : Resolver) (scope : Value) : Resolver := { r with scope }

/-- The value that a value describes. -/
def resolve (r : Resolver) (value : Value) : Eval Value := r.context.resolve value

/-- The shown form of what a value describes. -/
def resolveString (r : Resolver) (value : Value) : Eval String := do
  return String.ofList (← Eval.ofExcept (← r.resolve value).text)

def resolvePath (r : Resolver) (path : String) : Except Fault Value :=
  Path.resolve r.dataModel r.scope path

def format (r : Resolver) (template : String) : Eval String := r.context.format template

/-- Entries with the values that theirs describe, under the same keys and in the same order. -/
def resolveEntries (r : Resolver) (entries : List (Value × Value)) :
    Eval (List (Value × Value)) :=
  entries.mapM fun (key, value) => do return (key, ← r.resolve value)

/-- A mapping with the values that its own describe. -/
def resolveMapping (r : Resolver) (value : Value) : Eval Value :=
  match value with
  | .map entries => do return .map (← r.resolveEntries entries)
  | _ => Eval.fail .notMapping

end Resolver

end LiveValue
