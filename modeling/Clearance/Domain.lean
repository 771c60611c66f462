import Clearance.Distinct
import Clearance.Identifier

/-!
# Sets of permissions

A `PermissionDomain` is a closed set of identifiers, each of which it holds once and in no order
that matters. Those that a text finds, and that of `null`, are its `permissions`; others, which no
path can name, are kept beside them. It is made of identifiers as values, none of which may change
(`PermissionDomain.gather`), or of whatever stands for identifiers (`PermissionDomain.ofValue`).
-/

namespace Clearance

structure PermissionDomain where
  permissions : List Identifier
  nodup : permissions.Nodup
  /-- What is in the set and found as no identifier. -/
  foreign : List Value := []

namespace PermissionDomain

/-- The set of the identifiers given. -/
def ofIdentifiers (ps : List Identifier) : PermissionDomain :=
  { permissions := distinct ps, nodup := nodup_distinct ps }

/-- The set of the values given. -/
def ofValues (vs : List Value) : PermissionDomain :=
  { ofIdentifiers (vs.filterMap Identifier.ofValue?) with
    foreign := Value.firsts (vs.filter fun v => (Identifier.ofValue? v).isNone) }

/-- The set of identifiers as values is that of the identifiers. -/
theorem ofValues_toValue (ps : List Identifier) :
    ofValues (ps.map Identifier.toValue) = ofIdentifiers ps := by
  have hidentifiers : (ps.map Identifier.toValue).filterMap Identifier.ofValue? = ps := by
    simp [List.filterMap_map, Function.comp_def]
  have hforeign : (ps.map Identifier.toValue).filter
      (fun v => (Identifier.ofValue? v).isNone) = [] := by
    simp [List.filter_eq_nil_iff]
  rw [ofValues, hidentifiers, hforeign]
  rfl

/-- The set of the values given, none of which may change. -/
def gather (vs : List Value) : Except Failure PermissionDomain :=
  match Value.changeableIn? vs with
  | none => .ok (ofValues vs)
  | some kind => .error (.changeable kind)

/-- The set of the identifiers of what the value holds. -/
def ofValue (v : Value) : Run PermissionDomain := do
  return ofValues (← Run.identifyAllFixed v)

/-- Whether the identifier is in the set. -/
def contains (d : PermissionDomain) (p : Identifier) : Bool :=
  d.permissions.contains p

theorem mem_permissions_ofValues {vs : List Value} {p : Identifier} :
    p ∈ (ofValues vs).permissions ↔ ∃ v ∈ vs, Identifier.ofValue? v = some p := by
  show p ∈ distinct (vs.filterMap Identifier.ofValue?) ↔ _
  rw [mem_distinct, List.mem_filterMap]

/-- A text is in the set if it finds one of the values. -/
theorem contains_ofValues (vs : List Value) (q : String) :
    (ofValues vs).contains (some q) = vs.any fun v => v.foundAs? == some q := by
  rw [Bool.eq_iff_iff, contains, List.contains_iff_mem, mem_permissions_ofValues]
  simp only [Identifier.ofValue?_eq_text, List.any_eq_true, beq_iff_eq]

/-- Values that cannot change are gathered. -/
theorem gather_eq_ok {vs : List Value} (h : ∀ v ∈ vs, v.changeable? = none) :
    gather vs = .ok (ofValues vs) := by
  rw [gather, Value.changeableIn?_eq_none.2 h]

end PermissionDomain

end Clearance
