import Clearance.Proofs.StackMachine

/-!
# Trees of another shape

The answer of a group depends on what it asks and in which order, not on how the children are
grouped. A child that is a group with the same connective may give up its children to the group
around it, and a group of one child stands for that child. Neither can be noticed from outside, by
what is answered or by how it fails, nor by anything that is looked at, drawn or written on the way
(`Predicate.call_restructured`).

It can be done at any place of a tree: what matters is the run of the subtree on every index
(`Predicate.judge_within`), which the surrounding groups go on from. A group asks its children in
two parts as it asks them at once (`Predicate.judgeAll_append`), hence it makes no difference where
the group ends in which a child stands.
-/

namespace Clearance

/-- A group with a place left for one of its children. -/
structure Surrounding where
  op : Connective
  before : List Predicate
  after : List Predicate

namespace Predicate

/-- The tree with the subtree at the place that the groups around it leave, the outermost first. -/
def within : List Surrounding → Predicate → Predicate
  | [], p => p
  | g :: gs, p => .group g.op (g.before ++ within gs p :: g.after)

variable {c : Value} {op : Connective} {p q : Predicate}

/-! ## Asking some children before the others -/

/-- Some children are asked first, and unless they decide the group the others are asked after
them. -/
theorem judgeAll_append (ps qs : List Predicate) (ix : Option GrantIndex) :
    judgeAll c op (ps ++ qs) ix = (do
      let r ← judgeAll c op ps ix
      if r.1 = op.absorbing then pure r else judgeAll c op qs r.2) := by
  induction ps generalizing ix with
  | nil =>
    have hne : ¬ (!op.absorbing) = op.absorbing := by simp
    rw [List.nil_append, judgeAll, pure_bind, if_neg hne]
  | cons p ps ih =>
    rw [List.cons_append, judgeAll, judgeAll, bind_assoc]
    congr 1
    funext r
    obtain ⟨b, ix'⟩ := r
    by_cases hb : b = op.absorbing
    · simp only [if_pos hb, pure_bind]
    · simp only [if_neg hb, ih]

/-- A group in front gives up its children to a group with the same connective. -/
theorem judgeAll_group_cons (qs ps : List Predicate) (ix : Option GrantIndex) :
    judgeAll c op (group op qs :: ps) ix = judgeAll c op (qs ++ ps) ix := by
  rw [judgeAll_append, judgeAll, judge]

/-- A group of one child runs as the child does. -/
theorem judge_singleton (op : Connective) (p : Predicate) (ix : Option GrantIndex) :
    judge c (group op [p]) ix = judge c p ix := by
  have hlast : ∀ r : Bool × Option GrantIndex,
      (if r.1 = op.absorbing then pure (r.1, r.2) else judgeAll c op [] r.2 :
        Run (Bool × Option GrantIndex)) = pure r := by
    rintro ⟨b, ix'⟩
    by_cases hb : b = op.absorbing
    · rw [if_pos hb]
    · rw [if_neg hb, judgeAll, Bool.eq_not.2 hb]
  rw [judge, judgeAll]
  exact (bind_congr hlast).trans (bind_pure _)

/-! ## Any place of a tree -/

/-- Where two children run alike on every index, so do the groups that have the one or the other
at the same place. -/
theorem judge_group_congr (h : ∀ ix, judge c p ix = judge c q ix) (before after : List Predicate)
    (ix : Option GrantIndex) :
    judge c (group op (before ++ p :: after)) ix =
      judge c (group op (before ++ q :: after)) ix := by
  have hfront : ∀ ix, judgeAll c op (p :: after) ix = judgeAll c op (q :: after) ix := by
    intro ix
    rw [judgeAll, judgeAll, h ix]
  rw [judge, judge, judgeAll_append, judgeAll_append]
  simp only [hfront]

/-- Subtrees that run alike on every index do so inside of any groups. -/
theorem judge_within (h : ∀ ix, judge c p ix = judge c q ix) (around : List Surrounding)
    (ix : Option GrantIndex) : judge c (within around p) ix = judge c (within around q) ix := by
  induction around generalizing ix with
  | nil => exact h ix
  | cons g gs ih => exact judge_group_congr ih g.before g.after ix

theorem call_group_eq_judge (op : Connective) (ps : List Predicate) :
    (group op ps).call c = (fun r => Value.bool r.1) <$> judge c (group op ps) none := by
  rw [call_group, Machine.run_start, judge, Functor.map_map]

/-- A tree with a group at the place is called as it is judged without an index. -/
theorem call_within (around : List Surrounding) (op : Connective) (ps : List Predicate) :
    (within around (group op ps)).call c =
      (fun r => Value.bool r.1) <$> judge c (within around (group op ps)) none := by
  cases around with
  | nil => exact call_group_eq_judge op ps
  | cons g gs => exact call_group_eq_judge g.op _

theorem call_within_congr {op' : Connective} {ps qs : List Predicate}
    (h : ∀ ix, judge c (group op ps) ix = judge c (group op' qs) ix) (around : List Surrounding) :
    (within around (group op ps)).call c = (within around (group op' qs)).call c := by
  rw [call_within, call_within, judge_within h]

theorem judge_group_splice (before ys after : List Predicate) (ix : Option GrantIndex) :
    judge c (group op (before ++ group op ys :: after)) ix =
      judge c (group op (before ++ ys ++ after)) ix := by
  rw [judge, judge, List.append_assoc, judgeAll_append, judgeAll_append]
  simp only [judgeAll_group_cons]

/-- At any place of a tree, a child of a group that is a group with the same connective may be
replaced by its children, which may be none, and a child that is a group of one child by that
child. On whatever context and in whatever session, the tree is called with the same answer or the
same failure, and with the same session afterwards. A group of one child is itself called as the
child is, and answers whether that answer is true. -/
theorem call_restructured (around : List Surrounding) (op op' : Connective)
    (before ys after : List Predicate) (x : Predicate) (context : Value) (session : Session) :
    ((within around (group op (before ++ group op ys :: after))).call context).outcome session =
        ((within around (group op (before ++ ys ++ after))).call context).outcome session ∧
      ((within around (group op (before ++ group op' [x] :: after))).call context).outcome session =
        ((within around (group op (before ++ x :: after))).call context).outcome session ∧
      ((group op [x]).call context).outcome session =
        ((fun v => Value.bool v.truthy) <$> x.call context).outcome session := by
  refine ⟨?_, ?_, ?_⟩
  · rw [call_within_congr (judge_group_splice before ys after) around]
  · rw [call_within_congr (judge_group_congr (judge_singleton op' x) before after) around]
  · have hcall : (group op [x]).call context = Value.bool <$> x.evaluate context := by
      rw [evaluate_eq_judge, Functor.map_map]
      rw [call_group_eq_judge, judge_singleton]
    have hevaluate : x.evaluate context = Value.truthy <$> x.call context :=
      (map_eq_pure_bind _ _).symm
    rw [hcall, hevaluate, Functor.map_map]

end Predicate

end Clearance
