import Clearance.Path.Basic
import Clearance.Predicate.Basic
import Clearance.Registry.Basic

/-!
# Leaves from paths

A `Resolver` makes leaves from texts by what a registry declares. It is strict or lenient. A
text that is no path, or that names a permission that is not declared, is refused by a strict
resolver; a lenient one makes the leaf all the same and writes a warning. The leaf from a text
that is no path has neither scope nor permission. What a text names goes by its characters;
warnings and refusals give it as it is written.
-/

namespace Clearance

structure Resolver where
  registry : Registry
  strict : Bool

namespace Resolver

/-- The scope and the permission that a text names. -/
def resolve (r : Resolver) (text : Wording) : Run (Option Path) :=
  match Path.split text.text with
  | none =>
    if r.strict then throw (.malformedPath text)
    else do
      Run.log (.malformedPath text.written)
      return none
  | some path =>
    if r.registry.declares path.scope path.permission then return some path
    else if r.strict then throw (.undeclaredPermission path.scope path.permission)
    else do
      Run.log (.undeclaredPath text.written)
      return some path

/-- The leaf of the polarity on a text. -/
def leaf (r : Resolver) (polarity : Polarity) (text : Wording) : Run Leaf := do
  let path ← r.resolve text
  return ⟨polarity, text, path.map (·.scope), path.map (·.permission)⟩

/-- The predicate that the permission is granted. -/
def has (r : Resolver) (text : Wording) : Run Predicate := do
  return .atom (.leaf (← r.leaf .has text))

/-- The predicate that the scope is granted and the permission is not. -/
def lacks (r : Resolver) (text : Wording) : Run Predicate := do
  return .atom (.leaf (← r.leaf .lacks text))

end Resolver

/-- The predicate that all of the predicates hold. -/
def Predicate.all (ps : List Predicate) : Predicate := .group .allOf ps

/-- The predicate that any of the predicates holds. -/
def Predicate.any (ps : List Predicate) : Predicate := .group .anyOf ps

end Clearance
