import Clearance.Grant.Lookup

/-!
# The grants of one evaluation

A `GrantIndex` is the view that one evaluation has of a context. The context is checked to be
a mapping when the index is opened. The grants of a scope are read when a leaf first asks for
them (`GrantIndex.grants`) and remembered after that, so that a one-shot source of grants is
drawn from once and seen by every leaf. A reading that fails is not remembered: the failure
ends it before a new index comes about.
-/

namespace Clearance

structure GrantIndex where
  context : Value
  /-- What has been read: the set of what is granted for a scope, `none` if it is absent or has
  no grant. -/
  memo : List (String × Option PermissionDomain) := []

namespace GrantIndex

/-- The index of a context, with nothing read yet. -/
def ofContext (c : Value) : Run GrantIndex := do
  Context.ensure c
  return { context := c }

/-- Reads the grants of a scope and remembers them. -/
def read (ix : GrantIndex) (scope : String) :
    Run (Option PermissionDomain × GrantIndex) := do
  let l ← Context.classify ix.context scope
  if l.state = .absent then Run.log (.absentScope scope)
  let found ← MonadExcept.ofExcept l.granted?
  return (found, { ix with memo := (scope, found) :: ix.memo })

/-- What is granted for a scope, and the index that remembers it. -/
def grants (ix : GrantIndex) (scope : String) :
    Run (Option PermissionDomain × GrantIndex) :=
  match ix.memo.lookup scope with
  | some found => return (found, ix)
  | none => ix.read scope

end GrantIndex

end Clearance
