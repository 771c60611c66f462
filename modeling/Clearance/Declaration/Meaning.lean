import Clearance.Declaration.Reading
import Clearance.Registry.Assembly

/-!
# What declarations mean

A declared module has the permissions listed, a declared registry is put together from its
modules in order, and a declared context is a mapping that cannot be changed, from each scope
to null or to the tuple of its grants.
-/

namespace Clearance

/-- The module that is declared. -/
def ModuleDeclaration.toModule (d : ModuleDeclaration) : Module :=
  Module.ofIdentifiers d.name (d.permissions.map some)

theorem ModuleDeclaration.mem_permissions_toModule {d : ModuleDeclaration} {p : Identifier} :
    p ∈ d.toModule.permissions ↔ ∃ q ∈ d.permissions, some q = p := by
  show p ∈ distinct (d.permissions.map some) ↔ _
  rw [mem_distinct, List.mem_map]

/-- The registry of the modules that are declared. -/
def Registry.ofDeclarations (ds : List ModuleDeclaration) : Run Registry :=
  Registry.assemble (ds.map ModuleDeclaration.toModule) .empty

/-- The registry that the value declares. -/
def Registry.ofValue (v : Value) : Run Registry := do
  Registry.ofDeclarations (← Payload.value.accept .registry (Payload.value.readRegistry v))

/-- The registry that the text of a document declares. -/
def Registry.ofText (text : String) : Run Registry := do
  Registry.ofDeclarations (← Document.accept .registry Payload.document.readRegistry text)

/-- The value of declared grants. -/
def grantsValue : Option (List String) → Value
  | none => .null
  | some gs => .container .tuple (gs.map .text)

/-- The context that is declared. -/
def ContextDeclaration.toContext (c : ContextDeclaration) : Value :=
  .mapping .view (c.map fun (scope, gs) => (.text scope, grantsValue gs))

/-- The context that the value declares. -/
def Context.ofValue (v : Value) : Run Value := do
  return (← Payload.value.accept .context (Payload.value.readContext v)).toContext

end Clearance
