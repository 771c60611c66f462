import Clearance.Predicate.Basic

/-!
# The answer of a predicate

The answer as the tree defines it. The children of a group are asked from left to right; the
first one with the absorbing answer of the group decides, and without one the group has the
other answer. All leaves of a tree share one index of grants, which is opened when the first
leaf is reached, so that a tree without leaves has an answer on anything. What a caller
supplies is handed the context itself, and its answer counts by whether it is true.

`Predicate.judge` goes down the tree by recursion. The machine in
`Clearance.Predicate.Machine` gives the same answer with a stack of its own.
-/

namespace Clearance.Predicate

mutual

/-- The answer of the predicate on the context, and the index of grants after it. -/
def judge (context : Value) : Predicate → Option GrantIndex → Run (Bool × Option GrantIndex)
  | .atom a, index => a.ask context index
  | .group op children, index => judgeAll context op children index

/-- The answer of a group on the children that are left. -/
def judgeAll (context : Value) (op : Connective) :
    List Predicate → Option GrantIndex → Run (Bool × Option GrantIndex)
  | [], index => return (!op.absorbing, index)
  | p :: ps, index => do
    let (b, index) ← judge context p index
    if b = op.absorbing then return (b, index) else judgeAll context op ps index

end

end Clearance.Predicate
