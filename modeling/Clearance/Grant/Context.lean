import Clearance.Run

/-!
# Contexts

A context is a mapping from the names of scopes to grants. Any value may be handed in as one;
`Context.ensure` refuses what is no mapping. There are two looks at a context: whether a scope
is in it (`Context.tests`) and what is under a scope (`Context.fetch`). Keys that are no texts
are never found, and of a text in whatever form only its characters count, unless it is a
peculiar one, which has its own rules.
-/

namespace Clearance.Context

/-- Fails unless the value is a mapping. -/
def ensure (v : Value) : Run Unit :=
  match v.mapping? with
  | some _ => return
  | none => throw (.invalidContext (.notMapping v.kindName))

/-- What is bound to the text `key`. -/
def bound? (key : String) (entries : List (Value × Value)) : Option Value :=
  (entries.find? fun e => e.1.foundAs? == some key).map (·.2)

/-- Whether `key` is in the mapping `v`. -/
def tests (v : Value) (key : String) : Run Bool :=
  match v.mapping? with
  | some (_, entries) => do
    Run.record (.look v (.tested key))
    return (bound? key entries).isSome
  | none => throw (.notContainer v.kindName)

/-- What is under `key` in the mapping `v`. -/
def fetch (v : Value) (key : String) : Run Value :=
  match v.mapping? with
  | some (_, entries) => do
    Run.record (.look v (.fetched key))
    match bound? key entries with
    | some w => return w
    | none => throw (.unknownKey key)
  | none => throw (.notContainer v.kindName)

end Clearance.Context
