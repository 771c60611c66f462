import Clearance.Predicate.Basic

/-!
# Evaluating a predicate with a stack

A tree may be too deep to go down by recursion. `Machine` holds the groups under way, the
innermost first, each with the children that are still to be asked, and beside them the answer
that came last and the index of grants, once it is open.

A turn of the machine is one of four things: it leaves a group that is decided, leaves one
whose children are all asked, goes into a child that is a group, or asks a child that is an
atom. Which one it is depends on the stack and on the last answer only (`Machine.move`). Every
move makes the stack smaller (`Machine.size_move`), hence `Machine.run` ends.
-/

namespace Clearance

/-- A group under way. -/
structure Frame where
  op : Connective
  /-- The children still to be asked. -/
  rest : List Predicate

/-- The turns that a group under way takes at most. -/
def Frame.size (f : Frame) : Nat :=
  1 + Predicate.weightAll f.rest

structure Machine where
  stack : List Frame
  /-- The answer that came last, if it has not been used up by going into a group. -/
  answer : Option Bool
  index : Option GrantIndex

namespace Machine

/-- The turns that a stack takes at most. -/
def size : List Frame → Nat
  | [] => 0
  | f :: fs => f.size + size fs

/-- What a machine does in a turn. -/
inductive Move where
  /-- Nothing is asked; the stack and the last answer are these now. -/
  | go (stack : List Frame) (answer : Option Bool)
  /-- The atom is asked, and the stack is this now. -/
  | ask (atom : Atom) (stack : List Frame)

/-- The stack after the move. -/
def Move.stack : Move → List Frame
  | .go stack _ => stack
  | .ask _ stack => stack

/-- The move with the group `f` innermost. -/
def move (f : Frame) (fs : List Frame) (answer : Option Bool) : Move :=
  if answer = some f.op.absorbing then .go fs answer
  else
    match f.rest with
    | [] => .go fs (some (!f.op.absorbing))
    | .group op children :: ps => .go (⟨op, children⟩ :: ⟨f.op, ps⟩ :: fs) none
    | .atom a :: ps => .ask a (⟨f.op, ps⟩ :: fs)

theorem size_move (f : Frame) (fs : List Frame) (answer : Option Bool) :
    size (move f fs answer).stack < size (f :: fs) := by
  obtain ⟨op, rest⟩ := f
  unfold move
  split
  · simp only [Move.stack, size, Frame.size]
    omega
  · match rest with
    | [] | .group _ _ :: _ | .atom _ :: _ =>
      simp only [Move.stack, size, Frame.size, Predicate.weightAll, Predicate.weight]
      omega

/-- Turns until no group is under way; the answer that came last is that of the outermost. -/
def run (context : Value) (m : Machine) : Run Bool :=
  match m with
  | ⟨[], answer, _⟩ => return answer.getD false
  | ⟨f :: fs, answer, index⟩ =>
    match _h : move f fs answer with
    | .go stack answer' => run context ⟨stack, answer', index⟩
    | .ask a stack => do
      let (b, index) ← a.ask context index
      run context ⟨stack, some b, index⟩
termination_by size m.stack
decreasing_by
  all_goals
    have := size_move f fs answer
    rwa [_h] at this

/-- The machine at the start of a group. -/
def start (op : Connective) (children : List Predicate) : Machine :=
  ⟨[⟨op, children⟩], none, none⟩

end Machine

namespace Predicate

/-- Calls the predicate on a context. A group answers with a truth value. -/
def call : Predicate → Routine
  | .atom a => a.call
  | .group op children => fun context => do
    return .bool (← Machine.run context (Machine.start op children))

/-- Whether the predicate holds on a context. -/
def evaluate (p : Predicate) (context : Value) : Run Bool := do
  return (← p.call context).truthy

end Predicate

end Clearance
