import Clearance.Grant.Index
import Clearance.Predicate.Outline
import Clearance.Value.Enumeration

/-!
# Predicates

A predicate decides on a context. It is a tree of *groups*, which need all or any of their
children, with *atoms* at its ends. The built-in atoms are leaves, which ask whether a
permission is among the grants of its scope (`Polarity.has`) or is not (`Polarity.lacks`).
Besides these a caller may supply atoms: a `Custom` predicate, which knows its scopes and its
outline, any `Routine` under a label, or a value. Of values only an enumeration can be called:
it gives its member with the value that it is handed.

A leaf is made from a path, and has no scope or no permission if the path was not one; it then
decides against, whatever the context. Neither of the two polarities holds for a scope that is
absent or has no grant.
-/

namespace Clearance

inductive Polarity where
  | has
  | lacks
  deriving DecidableEq, Repr

/-- The name of the polarity in an outline. -/
def Polarity.operator : Polarity → String
  | .has => "has"
  | .lacks => "not"

/-- What a leaf with the polarity is called. -/
def Polarity.title : Polarity → String
  | .has => "Has"
  | .lacks => "Lacks"

/-- Whether the leaf holds when its permission is among the grants or is not. -/
def Polarity.holds : Polarity → Bool → Bool
  | .has, present => present
  | .lacks, present => !present

structure Leaf where
  polarity : Polarity
  path : Wording
  scope : Option String
  permission : Option String
  deriving DecidableEq, Repr

/-- How a group puts the answers of its children together. -/
inductive Connective where
  | allOf
  | anyOf
  deriving DecidableEq, Repr

namespace Connective

/-- The answer of a child that decides for the group; without one the group has the other
answer. -/
def absorbing : Connective → Bool
  | .allOf => false
  | .anyOf => true

/-- The name of the connective in an outline. -/
def operator : Connective → String
  | .allOf => "all_of"
  | .anyOf => "any_of"

/-- What a group with the connective is called. -/
def title : Connective → String
  | .allOf => "AllOf"
  | .anyOf => "AnyOf"

end Connective

/-- Code of the caller's: it gets the context and may do anything that a run may do. -/
abbrev Routine := Value → Run Value

/-- What a routine is known by: its own name, or the form in which it is written. -/
inductive Label where
  | own (name : String)
  | written (form : String)
  deriving DecidableEq, Repr

def Label.text : Label → String
  | .own name => name
  | .written form => form

/-- A predicate of the caller's own kind. -/
structure Custom where
  name : String
  scopes : List String
  outline : Outline
  routine : Routine

/-- A node without children. -/
inductive Atom where
  | leaf (leaf : Leaf)
  | custom (custom : Custom)
  | routine (label : Label) (run : Routine)
  /-- A value in the place of a predicate. -/
  | value (value : Value)

inductive Predicate where
  | atom (atom : Atom)
  | group (op : Connective) (children : List Predicate)

namespace Predicate

mutual

/-- The number of steps that the tree takes at most: one for each node, and one more for each
group, to leave it. -/
def weight : Predicate → Nat
  | .atom _ => 1
  | .group _ children => 2 + weightAll children

def weightAll : List Predicate → Nat
  | [] => 0
  | p :: ps => weight p + weightAll ps

end

end Predicate

namespace Leaf

/-- The leaf on the grants of its scope. -/
def decides (l : Leaf) (permission : String) (granted : Option PermissionDomain) : Bool :=
  match granted with
  | none => false
  | some d => l.polarity.holds (d.contains (some permission))

/-- The answer of the leaf, and the index after it. A leaf without a scope or without a
permission asks for nothing. -/
def check (l : Leaf) (ix : GrantIndex) : Run (Bool × GrantIndex) :=
  match l.scope, l.permission with
  | some scope, some permission => do
    let (granted, ix) ← ix.grants scope
    return (l.decides permission granted, ix)
  | _, _ => return (false, ix)

/-- The answer of the leaf on a context of its own. -/
def evaluate (l : Leaf) (context : Value) : Run Bool := do
  let (b, _) ← l.check (← GrantIndex.ofContext context)
  return b

/-- The leaf in writing. -/
def written (l : Leaf) : String :=
  l.polarity.title ++ "(" ++ l.path.shown ++ ")"

end Leaf

namespace Predicate

/-- What a predicate of the form is called. -/
def kindName : Predicate → String
  | .atom (.leaf l) => l.polarity.title
  | .atom (.custom _) => "Custom"
  | .atom (.routine (.own _) _) => "function"
  | .atom (.routine (.written _) _) => "CallableObject"
  | .atom (.value v) => v.kindName
  | .group op _ => op.title

/-- The predicate in writing; a group gives the number of its children only. -/
def shown : Predicate → String
  | .atom (.leaf l) => l.written
  | .atom (.custom c) => "Custom(" ++ Text.quoted c.name ++ ")"
  | .atom (.routine (.own name) _) => "<function " ++ name ++ ">"
  | .atom (.routine (.written form) _) => form
  | .atom (.value v) => v.shown
  | .group op children => op.title ++ "(" ++ toString children.length ++ " predicates)"

end Predicate

/-- The index that is open, or else a new one on the context. -/
def GrantIndex.orOpen (context : Value) : Option GrantIndex → Run GrantIndex
  | some ix => return ix
  | none => GrantIndex.ofContext context

/-- The routine whose calls are recorded under the name, each before it starts. -/
def Routine.recorded (name : String) (run : Routine) : Routine := fun context => do
  Run.record (.called name)
  run context

/-- Calls the value, which is taken as it is now, and so is the context. -/
def Value.call (v : Value) : Routine := fun context => do
  match ← Run.current v with
  | .enumeration family members => Value.memberOf family members (← Run.current context)
  | v => throw (.notCallable v.kindName)

namespace Atom

/-- Calls the atom on a context of its own. A leaf answers with a truth value, what a caller
supplies with whatever it returns. -/
def call : Atom → Routine
  | .leaf l => fun context => do return .bool (← l.evaluate context)
  | .custom c => c.routine
  | .routine _ run => run
  | .value v => v.call

/-- The answer of the atom inside a tree, and the index of grants after it. A leaf asks the
index of the tree; everything else is called on the context, and its answer counts by whether
it is true. -/
def ask (context : Value) (index : Option GrantIndex) : Atom → Run (Bool × Option GrantIndex)
  | .leaf l => do
    let (b, ix) ← l.check (← GrantIndex.orOpen context index)
    return (b, some ix)
  | a => do return ((← a.call context).truthy, index)

end Atom

end Clearance
