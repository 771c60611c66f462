import Clearance.Proofs.Duality
import Clearance.Proofs.Restructuring

/-!
# Distributivity

A tree together with any of some others holds just when it holds together with one of them. As
evaluations the two sides differ: on the right the tree is asked again and again, once for each of
the others. This makes no difference, not even to what is looked at and drawn on the way, whatever
the context is (`Predicate.call_distributed`). Whatever the tree has asked for the index remembers,
so that the tree is *settled* once it has been asked (`Predicate.Settled`): asked again it takes
the same way to the same answer and does nothing.

That a tree is settled by being asked is shown along the tree (`Predicate.judge_settles`). It
stays settled whatever else is asked through the index, since an index forgets nothing
(`Predicate.judge_grows`). Only the tree that is repeated has to be plain for this.
-/

namespace Clearance

namespace GrantIndex

/-- Whatever the first index remembers, the second one does, too; an index that is not open
remembers nothing. -/
def Grows (ix jx : Option GrantIndex) : Prop :=
  ∀ i, ix = some i → ∃ j, jx = some j ∧
    ∀ x found, i.memo.lookup x = some found → j.memo.lookup x = some found

variable {ix jx kx : Option GrantIndex} {i : GrantIndex} {x : String}

theorem Grows.refl (ix : Option GrantIndex) : Grows ix ix :=
  fun i hi => ⟨i, hi, fun _ _ => id⟩

theorem Grows.trans (h : Grows ix jx) (h' : Grows jx kx) : Grows ix kx := by
  intro i hi
  obtain ⟨j, hj, hij⟩ := h i hi
  obtain ⟨k, hk, hjk⟩ := h' j hj
  exact ⟨k, hk, fun x found hx => hjk x found (hij x found hx)⟩

/-- A scope that is not remembered is remembered beside all others. -/
theorem grows_remembering (hx : i.memo.lookup x = none) (found : Option PermissionDomain) :
    Grows (some i) (some (i.remembering x found)) := by
  rintro _ ⟨⟩
  refine ⟨_, rfl, fun y found' hy => ?_⟩
  have hne : y ≠ x := by
    rintro rfl
    rw [hx] at hy
    cases hy
  rw [remembering, List.lookup_cons, beq_eq_false_iff_ne.2 hne]
  exact hy

/-- Reading a scope makes the index remember what it finds. -/
theorem read_remembers (i : GrantIndex) (x : String) (t : Session) :
    (i.read x).Ends t (fun r _ => r.2 = i.remembering x r.1) fun _ _ => True := by
  rw [read]
  refine .bind (Run.ends_true _) fun l t' _ => ?_
  dsimp only
  have hfound : ∀ u, Run.Ends u (do
      let found ← MonadExcept.ofExcept l.granted?
      return (found, { i with memo := (x, found) :: i.memo }))
      (fun r _ => r.2 = i.remembering x r.1) fun _ _ => True :=
    fun u => .bind (Run.ends_true _) fun _ _ _ => .pure rfl
  split
  · exact .bind (Run.ends_true _) fun _ u _ => hfound u
  · exact hfound t'

/-- Asking for a scope makes the index remember what it finds, and forget nothing. -/
theorem grants_grows (i : GrantIndex) (x : String) (t : Session) :
    (i.grants x).Ends t
      (fun r _ => r.2.memo.lookup x = some r.1 ∧ Grows (some i) (some r.2)) fun _ _ => True := by
  rw [grants]
  cases hm : i.memo.lookup x with
  | some found => exact .pure ⟨hm, .refl _⟩
  | none =>
    refine (read_remembers i x t).imp ?_ fun _ _ => id
    rintro ⟨found, j⟩ t' hj
    obtain rfl : j = i.remembering x found := hj
    exact ⟨List.lookup_cons_self, grows_remembering hm found⟩

/-- What an index remembers is answered at once. -/
theorem grants_of_lookup {found : Option PermissionDomain} (h : i.memo.lookup x = some found) :
    i.grants x = pure (found, i) := by
  rw [grants, h]

end GrantIndex

open GrantIndex

/-! ## Growing -/

/-- Checking a leaf lets the index grow. -/
theorem Leaf.check_grows (l : Leaf) (i : GrantIndex) (t : Session) :
    (l.check i).Ends t (fun r _ => Grows (some i) (some r.2)) fun _ _ => True := by
  rw [check]
  split
  · next x q _ _ =>
    exact .bind (i.grants_grows x t) fun r t' hr => .pure hr.2
  · exact .pure (.refl _)

/-- Asking an atom lets the index grow, if the atom is a leaf, and leaves it as it is otherwise. -/
theorem Atom.ask_grows (c : Value) (a : Atom) (ix : Option GrantIndex) (t : Session) :
    (a.ask c ix).Ends t (fun r _ => Grows ix r.2) fun _ _ => True := by
  cases a with
  | leaf l =>
    have hopen : (GrantIndex.orOpen c ix).Ends t (fun i _ => Grows ix (some i))
        fun _ _ => True := by
      cases ix with
      | some i => exact .pure (.refl _)
      | none => exact (Run.ends_true _).imp (fun _ _ _ => nofun) fun _ _ => id
    refine .bind hopen fun i t' hi => ?_
    exact .bind (l.check_grows i t') fun r t'' hr => .pure (hi.trans hr)
  | custom _ | routine _ _ | value _ =>
    exact .bind (Run.ends_true _) fun _ _ _ => .pure (.refl _)

namespace Predicate

variable {c : Value} {ix jx : Option GrantIndex} {t : Session} {p a : Predicate}
  {ps : List Predicate} {op op' : Connective} {b v : Bool}

/-- Asking a tree lets the index grow. -/
theorem judge_grows (c : Value) (p : Predicate) (ix : Option GrantIndex) (t : Session) :
    (judge c p ix).Ends t (fun r _ => Grows ix r.2) fun _ _ => True := by
  refine judge_keeps (I := fun jx _ => Grows ix jx) (fun a _ jx t' hj => ?_) (.refl ix)
  exact (a.ask_grows c jx t').imp (fun r _ hr => hj.trans hr) fun _ _ => id

/-! ## Settled trees -/

/-- Asked through the index or through one that it has grown into, the tree gives the answer, and
nothing happens. -/
def Settled (c : Value) (p : Predicate) (b : Bool) (ix : Option GrantIndex) : Prop :=
  ∀ jx, Grows ix jx → judge c p jx = pure (b, jx)

theorem Settled.grows (h : p.Settled c b ix) (hg : Grows ix jx) : p.Settled c b jx :=
  fun kx hk => h kx (hg.trans hk)

/-- A leaf that has been checked finds its scope remembered. -/
theorem check_settles (l : Leaf) (i : GrantIndex) (t : Session) :
    (l.check i).Ends t
      (fun r _ => ∀ j, Grows (some r.2) (some j) → l.check j = pure (r.1, j)) fun _ _ => True := by
  rw [Leaf.check]
  split
  · next x q hx hq =>
    refine .bind (i.grants_grows x t) fun r t' hr => .pure fun j hj => ?_
    obtain ⟨_, ⟨⟩, hlookup⟩ := hj r.2 rfl
    rw [Leaf.check, hx, hq]
    dsimp only
    rw [grants_of_lookup (hlookup x r.1 hr.1), pure_bind]
  · next hno =>
    refine .pure fun j _ => ?_
    rw [Leaf.check]
    split
    · next hx hq => exact absurd hq (hno _ _ hx)
    · rfl

/-- Once it has been asked, a leaf is settled. -/
theorem ask_leaf_settles (l : Leaf) (ix : Option GrantIndex) (t : Session) :
    ((Atom.leaf l).ask c ix).Ends t (fun r _ => (atom (.leaf l)).Settled c r.1 r.2)
      fun _ _ => True := by
  refine .bind (Run.ends_true _) fun i t' _ => ?_
  refine .bind (check_settles l i t') fun r t'' hr => .pure fun jx hj => ?_
  obtain ⟨j, rfl, hlookup⟩ := hj r.2 rfl
  have hg : Grows (some r.2) (some j) := hj
  rw [judge, Atom.ask, GrantIndex.orOpen, pure_bind, hr j hg, pure_bind]

theorem judgeAll_settles
    (h : ∀ p ∈ ps, ∀ ix t, (judge c p ix).Ends t (fun r _ => p.Settled c r.1 r.2)
      fun _ _ => True) (ix : Option GrantIndex) (t : Session) :
    (judgeAll c op ps ix).Ends t (fun r _ => (group op ps).Settled c r.1 r.2)
      fun _ _ => True := by
  induction ps generalizing ix t with
  | nil => exact .pure fun jx _ => rfl
  | cons p ps ih =>
    rw [judgeAll]
    refine .bind (h p List.mem_cons_self ix t) ?_
    rintro ⟨b, ix'⟩ t' hb
    by_cases hop : b = op.absorbing
    · simp only [if_pos hop]
      refine .pure fun jx hj => ?_
      rw [judge, judgeAll, hb jx hj, pure_bind]
      exact if_pos hop
    · simp only [if_neg hop]
      -- the first child stays settled while the others are asked
      have hps := ih (fun q hq => h q (List.mem_cons_of_mem p hq)) ix' t'
      refine (hps.and (judge_grows c (group op ps) ix' t')).imp ?_ fun _ _ _ => trivial
      rintro r t'' ⟨hr, hg⟩ jx hj
      rw [judge, judgeAll, hb jx (hg.trans hj), pure_bind]
      exact (if_neg hop).trans (hr jx hj)

/-- Once it has been asked, a plain tree is settled. -/
theorem judge_settles (hp : p.Plain) (ix : Option GrantIndex) (t : Session) :
    (judge c p ix).Ends t (fun r _ => p.Settled c r.1 r.2) fun _ _ => True := by
  induction p generalizing ix t with
  | atom a =>
    obtain ⟨l, rfl⟩ := hp a List.mem_cons_self
    exact ask_leaf_settles l ix t
  | group op ps ih =>
    exact judgeAll_settles (fun p hp' ix t => ih p hp'
      (fun a ha => hp a (mem_atomsAll.2 ⟨p, hp', ha⟩)) ix t) ix t

/-! ## Asking the tree with each of the others -/

/-- A settled tree either decides a group in which it comes first, or leaves it to what comes
next. -/
theorem judge_pair_of_settled (h : a.Settled c v ix) (op : Connective) (q : Predicate) :
    judge c (group op [a, q]) ix = if v = op.absorbing then pure (v, ix) else judge c q ix := by
  rw [judge, judgeAll, h ix (.refl ix), pure_bind, ← judge_singleton op q ix, judge]

theorem judgeAll_pairs_of_absorbing (h : a.Settled c v ix) (hv : v = op.absorbing)
    (ps : List Predicate) :
    judgeAll c op.dual (ps.map fun q => group op [a, q]) ix = pure (v, ix) := by
  have hne : v ≠ op.dual.absorbing := by simp [hv]
  induction ps with
  | nil => rw [List.map_nil, judgeAll, op.absorbing_dual, Bool.not_not, hv]
  | cons q ps ih =>
    rw [List.map_cons, judgeAll, judge_pair_of_settled h, if_pos hv, pure_bind]
    exact (if_neg hne).trans ih

theorem judgeAll_pairs_of_ne (h : a.Settled c v ix) (hv : v ≠ op.absorbing)
    (ps : List Predicate) :
    (judgeAll c op' (ps.map fun q => group op [a, q]) ix).outcome t =
      (judgeAll c op' ps ix).outcome t := by
  induction ps generalizing ix t with
  | nil => rfl
  | cons q ps ih =>
    rw [List.map_cons, judgeAll, judgeAll, judge_pair_of_settled h, if_neg hv]
    refine ((judge_grows c q ix t).imp ?_ fun _ _ => id).outcome_bind_eq
    rintro ⟨b, ix'⟩ t' hg
    by_cases hb : b = op'.absorbing
    · simp only [if_pos hb]
    · simp only [if_neg hb]
      exact ih (h.grows hg)

/-- A group in which the tree comes first begins by asking the tree. -/
theorem judgeAll_front (op op' : Connective) (a : Predicate) (qs ps : List Predicate)
    (ix : Option GrantIndex) :
    judgeAll c op' (group op (a :: qs) :: ps) ix = (do
      let r ← judge c a ix
      let r ← (if r.1 = op.absorbing then pure r else judgeAll c op qs r.2)
      if r.1 = op'.absorbing then pure r else judgeAll c op' ps r.2) := by
  rw [judgeAll, judge, judgeAll, bind_assoc]

/-- A plain tree that is asked first may just as well have been asked before. -/
theorem judgeAll_asked_before (ha : a.Plain) (op op' : Connective) (qs ps : List Predicate) :
    (judgeAll c op' (group op (a :: qs) :: ps) ix).outcome t =
      (judge c a ix >>= fun r => judgeAll c op' (group op (a :: qs) :: ps) r.2).outcome t := by
  rw [judgeAll_front]
  refine ((judge_settles ha ix t).imp (fun r t' hr => ?_) fun _ _ => id).outcome_bind_eq
  rw [judgeAll_front, hr r.2 (.refl _), pure_bind]

/-- A plain tree distributes over a group of others, which is not empty. -/
theorem judge_distributed (ha : a.Plain) (hps : ps ≠ []) (op : Connective) :
    (judge c (group op [a, group op.dual ps]) ix).outcome t =
      (judge c (group op.dual (ps.map fun q => group op [a, q])) ix).outcome t := by
  obtain ⟨q, qs, rfl⟩ := List.exists_cons_of_ne_nil hps
  rw [judge, judge, judgeAll, List.map_cons, judgeAll_asked_before ha]
  refine ((judge_settles ha ix t).imp ?_ fun _ _ => id).outcome_bind_eq
  rintro ⟨v, ix'⟩ t' hv
  by_cases hop : v = op.absorbing
  · simp only [if_pos hop]
    exact congrArg (Run.outcome · t') (judgeAll_pairs_of_absorbing hv hop (q :: qs)).symm
  · simp only [if_neg hop]
    refine Eq.trans ?_ (judgeAll_pairs_of_ne hv hop (q :: qs)).symm
    exact congrArg (Run.outcome · t') (judge_singleton op (group op.dual (q :: qs)) ix')

/-- All of a plain tree and any of some others come to the same as any of the pairs of the tree and
one of the others, and the other way round. On whatever context and in whatever session, both are
called with the same answer or the same failure, and with the same session afterwards, so that
nothing is looked at or drawn on one side that is not on the other one. -/
theorem call_distributed (a : Predicate) (ha : a.Plain) (ps : List Predicate) (hps : ps ≠ [])
    (context : Value) (session : Session) :
    ((group .allOf [a, group .anyOf ps]).call context).outcome session =
        ((group .anyOf (ps.map fun q => group .allOf [a, q])).call context).outcome session ∧
      ((group .anyOf [a, group .allOf ps]).call context).outcome session =
        ((group .allOf (ps.map fun q => group .anyOf [a, q])).call context).outcome session := by
  have hcall : ∀ op : Connective, ((group op [a, group op.dual ps]).call context).outcome session =
      ((group op.dual (ps.map fun q => group op [a, q])).call context).outcome session := by
    intro op
    rw [call_group_eq_judge, call_group_eq_judge, Run.outcome_map, Run.outcome_map,
      judge_distributed ha hps]
  exact ⟨hcall .allOf, hcall .anyOf⟩

/-- The tree asks for a scope with a one-shot source and then for one that is refused, as long as
the first one leaves it open. Both scopes are asked for again by the others. -/
theorem call_distributed_one_shot :
    let a : Predicate := .group .anyOf
      [.atom (.leaf ⟨.has, "user.READ", some "user", some "READ"⟩),
        .atom (.leaf ⟨.has, "team.READ", some "team", some "READ"⟩)]
    let ps : List Predicate :=
      [.atom (.leaf ⟨.has, "user", none, none⟩),
        .atom (.leaf ⟨.lacks, "user.WRITE", some "user", some "WRITE"⟩),
        .atom (.leaf ⟨.has, "team.WRITE", some "team", some "WRITE"⟩)]
    let c : Value := .mapping .table [(.text "user", .source 0), (.text "team", .text "READ")]
    let s : Session := { sources := [⟨[.text "READ", .int 1], none⟩] }
    a.Plain ∧ ps ≠ [] ∧
      ((group .allOf [a, group .anyOf ps]).call c).outcome s =
        ((group .anyOf (ps.map fun q => group .allOf [a, q])).call c).outcome s ∧
      ((group .anyOf [a, group .allOf ps]).call c).outcome s =
        ((group .allOf (ps.map fun q => group .anyOf [a, q])).call c).outcome s := by
  intro a ps c s
  have ha : a.Plain := by simp [Plain, a, atoms, atomsAll]
  have hps : ps ≠ [] := List.cons_ne_nil _ _
  exact ⟨ha, hps, call_distributed a ha ps hps c s⟩

end Predicate

end Clearance
