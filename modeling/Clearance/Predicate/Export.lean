import Clearance.Predicate.Basic

/-!
# The outline of a predicate

`Predicate.shape` is the outline as the tree defines it: a group has its operator over the
outlines of its children in order, a leaf its operator and its path, a predicate of the
caller's own kind whatever outline it gives, and anything else the name by which it is known.

`Predicate.outline` gives the same outline without going down the tree by recursion. Each group
has an `Outline.Entry`, which is known by its number. The entry of a child is listed in that of
the group around it while it is still empty; its own children are listed there when its turn
comes, and of the groups that wait for this the last one comes first (`Predicate.fill`). What an
entry refers to is looked up after all of them are filled (`Outline.read`).
-/

namespace Clearance

/-- What a value in the place of a predicate is known by. -/
def Value.label : Value → Label
  | .enumeration family _ => .own family.name
  | v => .written v.shown

namespace Outline

/-- The operator of what is neither built in nor a predicate of the caller's own kind. -/
def routine (label : Label) : Outline :=
  .named "callable" label.text

/-- The outline of a predicate that has a name and no operator of its own. -/
def base (name : String) : Outline :=
  .named "base" name

/-- A part that an entry lists: an outline, or whatever the entry with the number will list. -/
inductive Part where
  | outline (o : Outline)
  | entry (id : Nat)

/-- The outline of a group under way, with the parts that are listed so far. -/
structure Entry where
  operator : String
  parts : Array Part := #[]

/-- The entries with one more part listed in the entry with the number. -/
def append (entries : Array Entry) (id : Nat) (part : Part) : Array Entry :=
  entries.modify id fun e => { e with parts := e.parts.push part }

/-- The outline in the entry with the number. An entry refers to later entries only. -/
def read (entries : Array Entry) (id : Nat) : Outline :=
  match _h : entries[id]? with
  | some e => .group e.operator (e.parts.toList.map fun
    | .outline o => o
    | .entry later => if id < later then read entries later else default)
  | none => default
termination_by entries.size - id
decreasing_by
  have := (Array.getElem?_eq_some_iff.1 _h).1
  omega

end Outline

/-- The outline of the atom. -/
def Atom.outline : Atom → Outline
  | .leaf l => .path l.polarity.operator l.path.text
  | .custom c => c.outline
  | .routine label _ => .routine label
  | .value v => .routine v.label

/-- A group whose children are not listed yet. -/
structure Waiting where
  children : List Predicate
  /-- The number of its entry. -/
  id : Nat

namespace Predicate

mutual

/-- The outline as the tree defines it. -/
def shape : Predicate → Outline
  | .atom a => a.outline
  | .group op children => .group op.operator (shapeAll children)

def shapeAll : List Predicate → List Outline
  | [] => []
  | p :: ps => shape p :: shapeAll ps

end

/-- The turns that the groups that wait take at most. -/
def waitingWeight : List Waiting → Nat
  | [] => 0
  | w :: ws => 1 + weightAll w.children + waitingWeight ws

/-- Lists the children that are left in the entry `id`, and then those of the groups that wait
in theirs. A child that is a group gets an entry, the next one in number, and waits. -/
def fill (children : List Predicate) (id : Nat) (waiting : List Waiting)
    (entries : Array Outline.Entry) : Array Outline.Entry :=
  match children, waiting with
  | [], [] => entries
  | [], w :: ws => fill w.children w.id ws entries
  | .atom a :: ps, ws => fill ps id ws (Outline.append entries id (.outline a.outline))
  | .group op qs :: ps, ws =>
    fill ps id (⟨qs, entries.size⟩ :: ws)
      ((Outline.append entries id (.entry entries.size)).push { operator := op.operator })
termination_by weightAll children + waitingWeight waiting
decreasing_by all_goals simp only [waitingWeight, weightAll, weight]; omega

/-- The outline of the predicate. -/
def outline : Predicate → Outline
  | .atom a => a.outline
  | .group op children => Outline.read (fill children 0 [] #[{ operator := op.operator }]) 0

end Predicate

end Clearance
