import Clearance.Predicate.Evaluation
import Clearance.Predicate.Machine
import Clearance.Proofs.Outcome

/-!
# The machine and the answer of a tree

The machine of `Clearance.Predicate.Machine` gives the answer that the tree defines. The
invariant is `Machine.unwind` : what the groups under way make of the last answer, the innermost
first, each of them by asking its remaining children unless the answer decides it. A turn of the
machine leaves it as it is, whether the machine moves on its own (`Machine.unwind_go`) or asks an
atom (`Machine.unwind_ask`). At the end no group is under way and the last answer is left, hence
the machine runs to what it unwinds to (`Machine.run_eq_unwind`).

`Predicate.evaluate_eq_judge` says the same of a tree as a whole, with one atom or a group at
its root.
-/

namespace Clearance

namespace Machine

open Predicate

/-- What the groups under way make of the answer that came last. -/
def unwind (context : Value) : List Frame → Option Bool → Option GrantIndex → Run Bool
  | [], answer, _ => return answer.getD false
  | f :: fs, answer, index => do
    let (b, index) ←
      (if answer = some f.op.absorbing then pure (f.op.absorbing, index)
      else judgeAll context f.op f.rest index)
    unwind context fs (some b) index

variable {c : Value} {f : Frame} {fs stack : List Frame} {a : Option Bool}
  {ix : Option GrantIndex}

/-- The first child answers, and unless this decides the group the others are asked. -/
theorem judgeAll_bind (p : Predicate) (op : Connective) (ps : List Predicate)
    (g : Bool × Option GrantIndex → Run Bool) :
    judgeAll c op (p :: ps) ix >>= g = (do
      let r ← judge c p ix
      (if some r.1 = some op.absorbing then pure (op.absorbing, r.2)
        else judgeAll c op ps r.2) >>= g) := by
  rw [judgeAll, bind_assoc]
  congr 1
  funext r
  obtain ⟨b, ix'⟩ := r
  by_cases h : b = op.absorbing
  · simp only [h, if_true]
  · simp only [h, if_false, Option.some.injEq]

/-- Moving on without asking keeps what the stack unwinds to. -/
theorem unwind_go {a' : Option Bool} (h : move f fs a = .go stack a') :
    unwind c (f :: fs) a ix = unwind c stack a' ix := by
  obtain ⟨op, rest⟩ := f
  rw [move] at h
  split at h
  · next ha =>
    obtain ⟨rfl, rfl⟩ := Move.go.inj h
    rw [unwind, if_pos ha, pure_bind, ha]
  · next ha =>
    rw [unwind, if_neg ha]
    match rest with
    | [] =>
      obtain ⟨rfl, rfl⟩ := Move.go.inj h
      rw [judgeAll, pure_bind]
    | .group op' qs :: ps =>
      obtain ⟨rfl, rfl⟩ := Move.go.inj h
      rw [judgeAll_bind, judge, unwind, if_neg nofun]
      rfl

/-- Asking an atom and going on with its answer keeps what the stack unwinds to. -/
theorem unwind_ask {at' : Atom} (h : move f fs a = .ask at' stack) :
    unwind c (f :: fs) a ix = (do
      let (b, ix) ← at'.ask c ix
      unwind c stack (some b) ix) := by
  obtain ⟨op, rest⟩ := f
  rw [move] at h
  split at h
  · cases h
  · next ha =>
    rw [unwind, if_neg ha]
    match rest with
    | .atom b :: ps =>
      obtain ⟨rfl, rfl⟩ := Move.ask.inj h
      rw [judgeAll_bind, judge]
      rfl

/-- The machine runs to what its stack unwinds to. -/
theorem run_eq_unwind (c : Value) (m : Machine) :
    run c m = unwind c m.stack m.answer m.index := by
  -- along the turns of the machine, each of which keeps what the stack unwinds to
  fun_induction run c m with
  | case1 a ix => rfl
  | case2 f fs a ix stack a' h ih => rw [ih, unwind_go h]
  | case3 f fs a ix at' stack h ih =>
    rw [unwind_ask h]
    congr 1
    funext r
    exact ih r.1 r.2

/-- From the start of a group the machine runs to the answer of the group. -/
theorem run_start (c : Value) (op : Connective) (ps : List Predicate) :
    run c (start op ps) = Prod.fst <$> judgeAll c op ps none := by
  rw [run_eq_unwind, start, unwind, if_neg nofun, map_eq_pure_bind]
  rfl

end Machine

namespace Predicate

theorem call_group (op : Connective) (ps : List Predicate) (c : Value) :
    (group op ps).call c = Value.bool <$> Machine.run c (Machine.start op ps) :=
  (map_eq_pure_bind _ _).symm

/-- A predicate holds on a context by the answer of its tree, asked without an index. -/
theorem evaluate_eq_judge (p : Predicate) (c : Value) :
    p.evaluate c = Prod.fst <$> judge c p none := by
  match p with
  | .group op ps =>
    rw [evaluate, call_group, judge, Machine.run_start]
    simp [Value.truthy]
  | .atom (.leaf l) =>
    simp [evaluate, call, judge, Atom.call, Atom.ask, Leaf.evaluate, GrantIndex.orOpen,
      Value.truthy]
  | .atom (.custom _) | .atom (.routine _ _) | .atom (.value _) =>
    simp [evaluate, call, judge, Atom.ask]

/-- Calling a group, on whatever context and in whatever session, comes to the answer that its
tree defines, with the same failure if there is one and the same session afterwards. -/
theorem call_group_outcome (op : Connective) (children : List Predicate) (context : Value)
    (session : Session) :
    ((group op children).call context).outcome session =
      ((fun r => Value.bool r.1) <$> judge context (group op children) none).outcome session := by
  rw [call_group, Machine.run_start, judge, Functor.map_map]

end Predicate

end Clearance
