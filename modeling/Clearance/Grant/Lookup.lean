import Clearance.Domain
import Clearance.Grant.Context
import Clearance.Value.Comparison

/-!
# What a context grants for a scope

A scope is in one of three states: it is absent from the context, it is there without a grant
(under it is `null`), or it is granted a sequence of permissions, which may be empty.
`Context.lookup` finds the state out and turns each grant into its identifier. A text or a
string of octets under a scope is refused although it could be iterated over, since a single
permission in place of a list of them is a mistake.

A permission is looked for in two ways: among the grants in order by equality (`Lookup.contains`),
and in the set of them as keys are (`Lookup.granted?`). They may differ on peculiar texts only.
-/

namespace Clearance

inductive ScopeState where
  | absent
  | noGrant
  | granted
  deriving DecidableEq, Repr

/-- The name of the state. -/
def ScopeState.name : ScopeState → String
  | .absent => "absent"
  | .noGrant => "no_grant"
  | .granted => "granted"

/-- The state in writing. -/
def ScopeState.shown (s : ScopeState) : String :=
  "<ScopeState." ++ s.name.map Char.toUpper ++ ": " ++ Text.quoted s.name ++ ">"

/-- The state of the name that the value is. -/
def ScopeState.ofValue (v : Value) : Run ScopeState :=
  match [ScopeState.absent, .noGrant, .granted].find? fun s => v.equalsText s.name with
  | some s => return s
  | none => Run.refuse v .unknownState

/-- The outcome of looking a scope up. A lookup may also be put together by hand, with grants
that are not identifiers. -/
structure Lookup where
  state : ScopeState
  grants : List Value := []

namespace Lookup

/-- Whether there is a sequence of grants. -/
def isGranted (l : Lookup) : Bool :=
  l.state == .granted

/-- The lookup in writing. -/
def shown (l : Lookup) : String :=
  "ScopeLookup(state=" ++ l.state.shown ++ ", grants=" ++
    (Value.container .tuple l.grants).shown ++ ")"

/-- Whether the text `permission` is among the grants. -/
def contains (l : Lookup) (permission : String) : Bool :=
  l.isGranted && l.grants.any (·.equalsText permission)

/-- Whether the value is among the grants, as it is. -/
def holds (l : Lookup) (v : Value) : Run Bool :=
  if l.isGranted then Run.isAmong v l.grants else return false

/-- The set of the grants, if there are some. -/
def granted? (l : Lookup) : Except Failure (Option PermissionDomain) :=
  if l.isGranted then (PermissionDomain.gather l.grants).map some else .ok none

/-- The set of grants that can be keys. -/
theorem granted?_of_fixed {l : Lookup} (h : ∀ v ∈ l.grants, v.changeable? = none) :
    l.granted? = .ok (if l.isGranted then some (PermissionDomain.ofValues l.grants) else none) := by
  rw [granted?, PermissionDomain.gather_eq_ok h]
  cases l.isGranted <;> rfl

/-- Lookups with the same state and the same grants in the same order are the same. -/
def agrees (l l' : Lookup) : Bool :=
  l.state == l'.state && Value.agreesList l.grants l'.grants

/-- The looks of comparing the first lookup with the second. -/
def looks (l l' : Lookup) : List Event :=
  if l.state = l'.state then
    (Value.container .tuple l.grants).looks (.container .tuple l'.grants)
  else []

/-- The kind of what may change in the lookup, if something may. -/
def changeable? (l : Lookup) : Option String :=
  Value.changeableIn? l.grants

/-- A number that is the same for lookups that agree. -/
def fingerprint (l : Lookup) : UInt64 :=
  mixHash (hash l.state.name) (hash l.grants.length)

end Lookup

/-- Whether the value under a scope cannot be read as a sequence of grants. -/
def Value.isUnreadable (v : Value) : Bool :=
  match v with
  | .octets _ => true
  | v => v.content?.isSome || (Iteration.of? v).isNone

namespace Context

/-- The state of the scope in the mapping `c`, with its grants as identifiers. -/
def classify (c : Value) (scope : String) : Run Lookup := do
  if ← tests c scope then
    match ← fetch c scope with
    | .null => return ⟨.noGrant, []⟩
    | v =>
      if v.isUnreadable then
        throw (.invalidContext (.unreadableGrants scope v.kindName))
      return ⟨.granted, ← Run.identifyAll v⟩
  else return ⟨.absent, []⟩

/-- The state of the scope in the context `c`, which has to be a mapping. -/
def lookup (c : Value) (scope : String) : Run Lookup := do
  ensure c
  classify c scope

end Context

end Clearance
