import Clearance.Distinct
import Clearance.Predicate.Basic

/-!
# The scopes of a predicate

The scopes that a predicate refers to: those of its leaves, and those that predicates of the
caller's own kind name. A leaf without a scope, a routine and a value refer to none.

`Predicate.mentions` lists them by recursion on the tree. `Predicate.scopes` finds them with
a list of groups still to be gone through (`Predicate.visits`): a group is gone through as a
whole, child by child, before any of its children that are groups, the last of these first.
-/

namespace Clearance

/-- The scopes that the atom refers to. -/
def Atom.scopes : Atom → List String
  | .leaf l => l.scope.toList
  | .custom c => c.scopes
  | .routine .. | .value _ => []

namespace Predicate

mutual

/-- The scopes that the predicate refers to, position by position. -/
def mentions : Predicate → List String
  | .atom a => a.scopes
  | .group _ children => mentionsAll children

def mentionsAll : List Predicate → List String
  | [] => []
  | p :: ps => mentions p ++ mentionsAll ps

end

/-- The children of the groups among the nodes, group by group. -/
def groups : List Predicate → List (List Predicate)
  | [] => []
  | .atom _ :: ps => groups ps
  | .group _ children :: ps => children :: groups ps

/-- The scopes that the node itself refers to. -/
def ownScopes : Predicate → List String
  | .atom a => a.scopes
  | .group .. => []

/-- The weight of groups with these children that are still to be gone through. -/
def pendingWeight : List (List Predicate) → Nat
  | [] => 0
  | qs :: pending => 1 + weightAll qs + pendingWeight pending

theorem pendingWeight_append (xs ys : List (List Predicate)) :
    pendingWeight (xs ++ ys) = pendingWeight xs + pendingWeight ys := by
  induction xs with
  | nil => rw [List.nil_append, pendingWeight, Nat.zero_add]
  | cons qs xs ih =>
    simp only [List.cons_append, pendingWeight, ih]
    omega

theorem pendingWeight_reverse (xs : List (List Predicate)) :
    pendingWeight xs.reverse = pendingWeight xs := by
  induction xs with
  | nil => rfl
  | cons qs xs ih =>
    rw [List.reverse_cons, pendingWeight_append, ih]
    simp only [pendingWeight]
    omega

theorem pendingWeight_groups_le (ps : List Predicate) :
    pendingWeight (groups ps) ≤ weightAll ps := by
  induction ps with
  | nil => exact Nat.le_refl _
  | cons p ps ih =>
    cases p <;> simp only [groups, pendingWeight, weightAll, weight] <;> omega

/-- The nodes that are met when the groups with the children `pending` are gone through. -/
def visits : (pending : List (List Predicate)) → List Predicate
  | [] => []
  | ps :: pending => ps ++ visits ((groups ps).reverse ++ pending)
termination_by pending => pendingWeight pending
decreasing_by
  have := pendingWeight_groups_le ps
  rw [pendingWeight_append, pendingWeight_reverse, pendingWeight]
  omega

/-- The scopes that the predicate refers to, each once. -/
def scopes : Predicate → List String
  | .atom a => distinct a.scopes
  | .group _ children => distinct ((visits [children]).flatMap ownScopes)

end Predicate

end Clearance
