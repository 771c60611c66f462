import Clearance.Proofs.Noninterference

/-!
# Trees with their children in another order

The children of a group may be put in another order, and any of them may be repeated, at any places
of a tree (`Predicate.Rearranged`). Other leaves are then reached, scopes are read at other times,
and where a reading fails another failure may come first. But a decision that succeeds stays the
same, as long as no two scopes draw from one source (`Predicate.evaluate_rearranged`).

What carries the proof is a meaning of groups that knows no order: if none of its children fails, a
group has its absorbing answer just when one of the children has it
(`Predicate.verdictAll_eq_of_same_answers`).
-/

namespace Clearance.Predicate

/-- The second tree comes from the first one by putting children of a group in another order or
repeating one of them, at any places of the tree and any number of times. -/
inductive Rearranged : Predicate → Predicate → Prop
  | refl (p : Predicate) : Rearranged p p
  | reorder {op : Connective} {ps qs : List Predicate} (h : ps.Perm qs) :
      Rearranged (.group op ps) (.group op qs)
  | again {op : Connective} {p : Predicate} {ps : List Predicate} (h : p ∈ ps) :
      Rearranged (.group op ps) (.group op (p :: ps))
  | child {op : Connective} {p q : Predicate} (before after : List Predicate)
      (h : Rearranged p q) :
      Rearranged (.group op (before ++ p :: after)) (.group op (before ++ q :: after))
  | trans {p q r : Predicate} (h : Rearranged p q) (h' : Rearranged q r) : Rearranged p r

variable {ask : Atom → Except Failure Bool} {op : Connective} {p q : Predicate}
  {ps qs : List Predicate}

/-- A child that is there already adds nothing to what some child has. -/
theorem exists_mem_cons_of_mem {motive : Predicate → Prop} (h : p ∈ ps) :
    (∃ q ∈ p :: ps, motive q) ↔ ∃ q ∈ ps, motive q := by
  simp only [List.mem_cons, or_and_right, exists_or, exists_eq_left, or_iff_right_iff_imp]
  exact fun hp => ⟨p, h, hp⟩

/-- What two children have alike, two groups that differ in them only have in some child alike. -/
theorem exists_mem_child_congr {motive : Predicate → Prop} (h : motive q ↔ motive p)
    (before after : List Predicate) :
    (∃ r ∈ before ++ q :: after, motive r) ↔ ∃ r ∈ before ++ p :: after, motive r := by
  simp only [List.mem_append, List.mem_cons, or_and_right, exists_or, exists_eq_left, h]

/-- Which atoms a tree has does not change. -/
theorem Rearranged.mem_atoms_iff (h : p.Rearranged q) (a : Atom) : a ∈ q.atoms ↔ a ∈ p.atoms := by
  induction h with
  | refl => rfl
  | reorder h => simp only [atoms, mem_atomsAll, h.mem_iff]
  | again h =>
    simp only [atoms, mem_atomsAll]
    exact exists_mem_cons_of_mem h
  | child before after _ ih =>
    simp only [atoms, mem_atomsAll]
    exact exists_mem_child_congr ih before after
  | trans _ _ ih ih' => exact ih'.trans ih

/-- Groups with the same answers among those of their children have the same answer, in whichever
order these come, if no atom fails. -/
theorem verdictAll_eq_of_same_answers
    (hps : ∀ a ∈ (group op ps).atoms, ∃ b, ask a = .ok b)
    (hqs : ∀ a ∈ (group op qs).atoms, ∃ b, ask a = .ok b)
    (h : (∃ q ∈ qs, q.verdict ask = .ok op.absorbing) ↔
      ∃ p ∈ ps, p.verdict ask = .ok op.absorbing) :
    (group op qs).verdict ask = (group op ps).verdict ask := by
  have hchildren : ∀ {ps}, (∀ a ∈ (group op ps).atoms, ∃ b, ask a = .ok b) →
      ∀ p ∈ ps, ∃ b, p.verdict ask = .ok b :=
    fun hok p hp => verdict_ok fun a ha => hok a (mem_atomsAll.2 ⟨p, hp, ha⟩)
  obtain ⟨b, hb⟩ := verdict_ok hps
  obtain ⟨b', hb'⟩ := verdict_ok hqs
  rw [hb, hb']
  congr 1
  have habsorbing : b' = op.absorbing ↔ b = op.absorbing := by
    constructor
    · rintro rfl
      obtain ⟨p, hp, hv⟩ := h.1 (exists_of_verdictAll_absorbing hb')
      exact Except.ok.inj (hb.symm.trans (verdictAll_absorbing_of_mem (hchildren hps) hp hv))
    · rintro rfl
      obtain ⟨q, hq, hv⟩ := h.2 (exists_of_verdictAll_absorbing hb)
      exact Except.ok.inj (hb'.symm.trans (verdictAll_absorbing_of_mem (hchildren hqs) hq hv))
  -- the only other answer is the opposite one
  revert habsorbing
  cases b <;> cases b' <;> cases op.absorbing <;> decide

/-- A tree none of whose atoms fails keeps its verdict. -/
theorem Rearranged.verdict_eq (h : p.Rearranged q) (hok : ∀ a ∈ p.atoms, ∃ b, ask a = .ok b) :
    q.verdict ask = p.verdict ask := by
  have hok' : ∀ {p q : Predicate}, p.Rearranged q → (∀ a ∈ p.atoms, ∃ b, ask a = .ok b) →
      ∀ a ∈ q.atoms, ∃ b, ask a = .ok b :=
    fun h hok a ha => hok a ((h.mem_atoms_iff a).1 ha)
  -- along the steps; of a group only the answers among those of its children count
  induction h with
  | refl => rfl
  | reorder h =>
    refine verdictAll_eq_of_same_answers hok (hok' (.reorder h) hok) ?_
    simp only [h.mem_iff]
  | again h =>
    exact verdictAll_eq_of_same_answers hok (hok' (.again h) hok) (exists_mem_cons_of_mem h)
  | @child op p q before after h ih =>
    have hp : ∀ a ∈ p.atoms, ∃ b, ask a = .ok b := fun a ha =>
      hok a (mem_atomsAll.2 ⟨p, List.mem_append_right _ List.mem_cons_self, ha⟩)
    refine verdictAll_eq_of_same_answers hok (hok' (.child before after h) hok) ?_
    exact exists_mem_child_congr (by rw [ih hp]) before after
  | trans h _ ih ih' => exact (ih' (hok' h hok)).trans (ih hok)

/-- The scopes of a tree do not change. -/
theorem Rearranged.mem_scopes_iff (h : p.Rearranged q) (x : String) :
    x ∈ q.scopes ↔ x ∈ p.scopes := by
  simp only [mem_scopes, h.mem_atoms_iff]

theorem Rearranged.plain (h : p.Rearranged q) (hp : p.Plain) : q.Plain :=
  fun a ha => hp a ((h.mem_atoms_iff a).1 ha)

/-- Let children of groups be put in another order or repeated, at any places of a tree. The tree
refers to the same scopes as before. If it is plain, and its scopes can be read and no two of them
draw from one source, it does not fail, neither before nor after, and answers the same both
times. -/
theorem evaluate_rearranged (p q : Predicate) (h : p.Rearranged q) :
    (∀ x, x ∈ q.scopes ↔ x ∈ p.scopes) ∧
    (p.Plain → ∀ (c : Value) (s : Session), c.mapping?.isSome →
      (∀ x ∈ p.scopes, Context.Readable c s x) → Context.Unshared c p.scopes →
      ∃ b, ((p.evaluate c).outcome s).1 = .ok b ∧ ((q.evaluate c).outcome s).1 = .ok b) := by
  refine ⟨h.mem_scopes_iff, fun hp c s hc hr hu => ?_⟩
  have hok : ∀ a ∈ p.atoms, ∃ b, a.answerIn c s = .ok b := by
    intro a ha
    obtain ⟨l, rfl⟩ := hp a ha
    exact Leaf.answerIn_of_readable hc fun x hx => hr x (mem_scopes_of_leaf ha hx)
  have hu' : Context.Unshared c q.scopes := fun x hx y hy =>
    hu x ((h.mem_scopes_iff x).1 hx) y ((h.mem_scopes_iff y).1 hy)
  obtain ⟨b, hb⟩ := verdict_ok hok
  refine ⟨b, (evaluate_plain hp hu).trans hb, ?_⟩
  rw [evaluate_plain (h.plain hp) hu', h.verdict_eq hok, hb]

/-- The leaf that reads the one-shot source comes first in the second tree, where the other one is
repeated inside of the group beside it. -/
theorem evaluate_rearranged_one_shot :
    let lab : Predicate := .atom (.leaf ⟨.lacks, "lab.READ", some "lab", some "READ"⟩)
    let team : Predicate := .atom (.leaf ⟨.has, "team.READ", some "team", some "READ"⟩)
    let user : Predicate := .atom (.leaf ⟨.has, "user.READ", some "user", some "READ"⟩)
    let p : Predicate := .group .allOf [.group .anyOf [lab, team], user]
    let q : Predicate := .group .allOf [user, .group .anyOf [team, lab, team]]
    let c : Value := .mapping .table
      [(.text "user", .source 0), (.text "team", .container .list [.text "READ"])]
    let s : Session := { sources := [⟨[.text "READ"], none⟩] }
    p.Rearranged q ∧ (∀ x, x ∈ q.scopes ↔ x ∈ p.scopes) ∧
      ∃ b, ((p.evaluate c).outcome s).1 = .ok b ∧ ((q.evaluate c).outcome s).1 = .ok b := by
  intro lab team user p q c s
  have hinner : (group .anyOf [lab, team]).Rearranged (group .anyOf [team, lab, team]) :=
    .again (List.mem_cons_of_mem _ List.mem_cons_self)
  have h : p.Rearranged q :=
    (Rearranged.child [] [user] hinner).trans (.reorder (List.Perm.swap _ _ _))
  have hp : p.Plain ∧ ∀ x ∈ p.scopes, x = "lab" ∨ x = "team" ∨ x = "user" := by
    simp [Plain, mem_scopes, p, lab, team, user, atoms, atomsAll, Atom.scopes]
  have hr : ∀ x ∈ p.scopes, Context.Readable c s x := by
    intro x hx
    rcases hp.2 x hx with rfl | rfl | rfl
    · exact .inl (.inl rfl)
    · exact .inr ⟨_, _, _, rfl, rfl, rfl, rfl, rfl⟩
    · exact .inr ⟨_, _, _, rfl, rfl, rfl, rfl, rfl⟩
  have hu : Context.Unshared c p.scopes := by
    refine .of_only "user" fun x hx id hid => ?_
    rcases hp.2 x hx with rfl | rfl | rfl
    · cases hid
    · cases hid
    · rfl
  obtain ⟨hscopes, hanswer⟩ := evaluate_rearranged p q h
  exact ⟨h, hscopes, hanswer hp.1 c s rfl hr hu⟩

end Clearance.Predicate
