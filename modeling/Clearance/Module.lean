import Clearance.Domain

/-!
# Modules

A *module* is a named scope together with the permissions that are legal in it. One
`PermissionDomain` may serve many scopes (`PermissionDomain.named`). The order of the permissions
does not matter: modules with the same name and the same permissions are the same
(`Module.agrees`), and their `Module.fingerprint` is the same.

A domain turns whatever it is made of into identifiers. A module that is put together by hand
(`Module.ofValue`) takes values as they are, so it may hold some that are no identifiers and
that no path can name.
-/

namespace Clearance

structure Module where
  name : String
  permissions : List Identifier
  nodup : permissions.Nodup
  /-- What the module holds besides identifiers. -/
  foreign : List Value := []

/-- The module that binds the domain to a name. -/
def PermissionDomain.named (d : PermissionDomain) (name : String) : Module :=
  { d with name }

namespace Module

/-- The module of the permissions given. -/
def ofIdentifiers (name : String) (ps : List Identifier) : Module :=
  (PermissionDomain.ofIdentifiers ps).named name

/-- The module of the values as they are. -/
def ofValues (name : String) (vs : List Value) : Module :=
  (PermissionDomain.ofValues vs).named name

/-- The module of what the value holds, as it is. -/
def ofValue (name : String) (v : Value) : Run Module := do
  return ofValues name (← Run.iterateFixed v)

/-- How many permissions the module has. -/
def size (m : Module) : Nat :=
  m.permissions.length + m.foreign.length

/-- The permissions as values. -/
def values (m : Module) : List Value :=
  m.permissions.map Identifier.toValue ++ m.foreign

/-- The module in writing. -/
def shown (m : Module) : String :=
  "Module(name=" ++ Text.quoted m.name ++ ", permissions=" ++
    (Value.container .frozenSet m.values).shown ++ ")"

/-- Whether the permission is legal in the module. -/
def declares (m : Module) (p : Identifier) : Bool :=
  m.permissions.contains p

/-- Whether the value is among the permissions of the module, as it is. A set may be looked
for although it may change. -/
def holds (m : Module) (v : Value) : Run Bool := do
  unless v matches .container .set _ do Run.requireFixed v
  match Identifier.ofValue? v with
  | some p => return m.declares p
  | none => return m.foreign.any v.agrees

/-- Modules with the same name and the same permissions are the same. -/
def agrees (m m' : Module) : Bool :=
  m.name == m'.name && m.permissions.all m'.declares && m'.permissions.all m.declares &&
    m.foreign.length == m'.foreign.length && Value.within m.foreign m'.foreign

/-- A number that does not depend on the order of the permissions, nor on more than the number
of those that are no identifiers. -/
def fingerprint (m : Module) : UInt64 :=
  mixHash (mixHash (hash m.name) (hash m.foreign.length))
    ((m.permissions.map hash).foldr (· + ·) 0)

end Module

end Clearance
