import Clearance.Document.Basic
import Clearance.Value.Enumeration

/-!
# Putting values together

How values are made from parts. What holds each key or each item once refuses parts that may
change (`Run.requireFixed`); of items that agree a set keeps the first, and of keys that agree
a mapping keeps the first with the last value. What agrees with nothing but itself gets an
identity of its own.
-/

namespace Clearance.Run

/-- The mapping of the entries given, in the order of the first occurrences of the keys, each
with its last value. -/
def mapping (kind : MappingKind) (entries : List (Value × Value)) : Run Value := do
  entries.forM fun e => requireFixed e.1
  return .mapping kind (entries.foldl (fun es e => Value.bind e.1 e.2 es) [])

/-- The container of the items given. -/
def container (kind : ContainerKind) (items : List Value) : Run Value := do
  if Value.isSet kind then
    items.forM requireFixed
    return .container kind (Value.firsts items)
  else return .container kind items

/-- The value that a number in a text denotes. -/
def number (n : Numeral) : Run Value := do
  return n.toValue (← newIdentity)

/-- A new object of the kind, which cannot be iterated over. -/
def object (kind text : String) : Run Value := do
  return .object (← newIdentity) kind (.plain text) none none

/-- A new enumeration of the names with their values, where a member is written as `script` has
it, and has no number if it is `numberless`. -/
def enumeration (name : String) (mixin : Mixin) (names : List (String × Value))
    (script : Option Script := none) (numberless : Bool := false) : Run Roster := do
  let identity ← newIdentity
  Roster.ofNames { identity, name, mixin, script, numberless } names

end Clearance.Run
