import Clearance.Proofs.Ends
import Clearance.Proofs.Reading
import Clearance.Proofs.StackMachine

/-!
# The verdict on a tree

`Predicate.verdict` is the answer of a tree whose atoms answer each for itself, without an index
and without a session. It depends on the answers of the atoms only (`Predicate.verdict_congr`),
and if none of these fails it does not fail either (`Predicate.verdict_ok`).

A tree asks its leaves through one index, which is opened late. Whatever the leaves keep of an
open index the tree keeps (`Shares`, `Predicate.judge_keeps`). So it has the verdict for its
answer, with each leaf answering by what its scope offered at the start
(`Predicate.evaluate_ends`). What carries the proof is `Tracks`: the index yields for every scope
what the scope offered at the start, whether it has been read or not. Asking the index keeps this,
as long as reading one scope does not disturb the others (`Undisturbed`).
-/

namespace Clearance

namespace Predicate

mutual

/-- The answer of the tree if its atoms answer as `ask` has it. -/
def verdict (ask : Atom → Except Failure Bool) : Predicate → Except Failure Bool
  | .atom a => ask a
  | .group op children => verdictAll ask op children

/-- The answer of a group on the children that are left. -/
def verdictAll (ask : Atom → Except Failure Bool) (op : Connective) :
    List Predicate → Except Failure Bool
  | [] => .ok (!op.absorbing)
  | p :: ps =>
    match verdict ask p with
    | .ok b => if b = op.absorbing then .ok b else verdictAll ask op ps
    | .error e => .error e

end

variable {ask ask' : Atom → Except Failure Bool} {op : Connective} {p : Predicate}
  {ps : List Predicate} {b : Bool} {e : Failure}

theorem verdictAll_cons_of_absorbing (h : p.verdict ask = .ok b) (hb : b = op.absorbing) :
    verdictAll ask op (p :: ps) = .ok b := by
  simp only [verdictAll, h, if_pos hb]

theorem verdictAll_cons_of_ne (h : p.verdict ask = .ok b) (hb : b ≠ op.absorbing) :
    verdictAll ask op (p :: ps) = verdictAll ask op ps := by
  simp only [verdictAll, h, if_neg hb]

theorem verdictAll_cons_of_error (h : p.verdict ask = .error e) :
    verdictAll ask op (p :: ps) = .error e := by
  simp only [verdictAll, h]

theorem verdictAll_congr
    (h : ∀ p ∈ ps, p.verdict ask = p.verdict ask') :
    verdictAll ask op ps = verdictAll ask' op ps := by
  induction ps with
  | nil => rfl
  | cons p ps ih =>
    rw [verdictAll, verdictAll, h p List.mem_cons_self,
      ih fun q hq => h q (List.mem_cons_of_mem p hq)]

/-- The verdict depends on the answers of the atoms of the tree only. -/
theorem verdict_congr (h : ∀ a ∈ p.atoms, ask a = ask' a) :
    p.verdict ask = p.verdict ask' := by
  induction p with
  | atom a => exact h a List.mem_cons_self
  | group op ps ih =>
    exact verdictAll_congr fun p hp => ih p hp fun a ha => h a (mem_atomsAll.2 ⟨p, hp, ha⟩)

theorem verdictAll_ok (h : ∀ p ∈ ps, ∃ b, p.verdict ask = .ok b) :
    ∃ b, verdictAll ask op ps = .ok b := by
  induction ps with
  | nil => exact ⟨_, rfl⟩
  | cons p ps ih =>
    obtain ⟨b, hb⟩ := h p List.mem_cons_self
    by_cases hop : b = op.absorbing
    · exact ⟨b, verdictAll_cons_of_absorbing hb hop⟩
    · rw [verdictAll_cons_of_ne hb hop]
      exact ih fun q hq => h q (List.mem_cons_of_mem p hq)

/-- If no atom fails, the tree does not fail. -/
theorem verdict_ok (h : ∀ a ∈ p.atoms, ∃ b, ask a = .ok b) :
    ∃ b, p.verdict ask = .ok b := by
  induction p with
  | atom a => exact h a List.mem_cons_self
  | group op ps ih =>
    exact verdictAll_ok fun p hp => ih p hp fun a ha => h a (mem_atomsAll.2 ⟨p, hp, ha⟩)

/-- If the atoms answer alike and none of them fails, the tree does so, too. -/
theorem verdict_alike (h : ∀ a ∈ p.atoms, ∃ b, ask a = .ok b ∧ ask' a = .ok b) :
    ∃ b, p.verdict ask = .ok b ∧ p.verdict ask' = .ok b := by
  have heq : p.verdict ask = p.verdict ask' := by
    refine verdict_congr fun a ha => ?_
    obtain ⟨b, hb, hb'⟩ := h a ha
    rw [hb, hb']
  obtain ⟨b, hb⟩ : ∃ b, p.verdict ask = .ok b :=
    verdict_ok fun a ha => (h a ha).imp fun _ => And.left
  exact ⟨b, hb, heq ▸ hb⟩

/-- A group that needs all of its children holds just when they all hold. -/
theorem verdictAll_allOf_iff :
    verdictAll ask .allOf ps = .ok true ↔ ∀ p ∈ ps, p.verdict ask = .ok true := by
  induction ps with
  | nil => simp [verdictAll, Connective.absorbing]
  | cons p ps ih =>
    rw [List.forall_mem_cons, ← ih, verdictAll]
    cases p.verdict ask with
    | error e => simp
    | ok b => cases b <;> simp [Connective.absorbing]

/-- A group has its absorbing answer only if one of its children has it. -/
theorem exists_of_verdictAll_absorbing (h : verdictAll ask op ps = .ok op.absorbing) :
    ∃ p ∈ ps, p.verdict ask = .ok op.absorbing := by
  induction ps with
  | nil => simp [verdictAll] at h
  | cons p ps ih =>
    rw [verdictAll] at h
    cases hp : p.verdict ask with
    | error e =>
      rw [hp] at h
      cases h
    | ok b =>
      by_cases hb : b = op.absorbing
      · exact ⟨p, List.mem_cons_self, hb ▸ hp⟩
      · simp only [hp, if_neg hb] at h
        obtain ⟨q, hq, hv⟩ := ih h
        exact ⟨q, List.mem_cons_of_mem p hq, hv⟩

/-- If none of its children fails, one with the absorbing answer is enough for a group to have it,
wherever the child stands. -/
theorem verdictAll_absorbing_of_mem (h : ∀ p ∈ ps, ∃ b, p.verdict ask = .ok b) (hp : p ∈ ps)
    (hv : p.verdict ask = .ok op.absorbing) : verdictAll ask op ps = .ok op.absorbing := by
  induction ps with
  | nil => exact absurd hp List.not_mem_nil
  | cons q ps ih =>
    obtain ⟨b, hb⟩ := h q List.mem_cons_self
    by_cases hop : b = op.absorbing
    · exact hop ▸ verdictAll_cons_of_absorbing hb hop
    · rw [verdictAll_cons_of_ne hb hop]
      refine ih (fun q hq => h q (List.mem_cons_of_mem _ hq)) ((List.mem_cons.1 hp).resolve_left ?_)
      rintro rfl
      exact hop (Except.ok.inj (hb.symm.trans hv))

/-- If no atom fails, a tree still holds after some atoms that did not hold do. -/
theorem verdict_mono (hok : ∀ a ∈ p.atoms, ∃ b, ask' a = .ok b)
    (h : ∀ a ∈ p.atoms, ask a = .ok true → ask' a = .ok true)
    (hv : p.verdict ask = .ok true) : p.verdict ask' = .ok true := by
  induction p with
  | atom a => exact h a List.mem_cons_self hv
  | group op ps ih =>
    have hmem : ∀ p ∈ ps, ∀ a ∈ p.atoms, a ∈ (group op ps).atoms :=
      fun p hp a ha => mem_atomsAll.2 ⟨p, hp, ha⟩
    have hps : ∀ p ∈ ps, p.verdict ask = .ok true → p.verdict ask' = .ok true := fun p hp =>
      ih p hp (fun a ha => hok a (hmem p hp a ha)) fun a ha => h a (hmem p hp a ha)
    cases op with
    | allOf => exact verdictAll_allOf_iff.2 fun p hp => hps p hp (verdictAll_allOf_iff.1 hv p hp)
    | anyOf =>
      obtain ⟨p, hp, hpv⟩ := exists_of_verdictAll_absorbing hv
      refine verdictAll_absorbing_of_mem (fun q hq => ?_) hp (hps p hp hpv)
      exact verdict_ok fun a ha => hok a (hmem q hq a ha)

/-! ## A tree through a shared index -/

section

variable {c : Value} {I : Option GrantIndex → Session → Prop}

theorem judgeAll_ends
    (h : ∀ p ∈ ps, ∀ ix t, I ix t → (judge c p ix).Ends t
      (fun r t' => p.verdict ask = .ok r.1 ∧ I r.2 t') (fun e _ => p.verdict ask = .error e))
    {ix : Option GrantIndex} {t : Session} (hI : I ix t) :
    (judgeAll c op ps ix).Ends t (fun r t' => verdictAll ask op ps = .ok r.1 ∧ I r.2 t')
      (fun e _ => verdictAll ask op ps = .error e) := by
  induction ps generalizing ix t with
  | nil =>
    rw [judgeAll]
    exact .pure ⟨rfl, hI⟩
  | cons p ps ih =>
    rw [judgeAll]
    refine .bind ((h p List.mem_cons_self ix t hI).imp (fun _ _ => id)
      fun e _ => verdictAll_cons_of_error) ?_
    rintro ⟨b, ix'⟩ t' ⟨hb, hI'⟩
    by_cases hop : b = op.absorbing
    · simp only [if_pos hop, verdictAll_cons_of_absorbing hb hop]
      exact .pure ⟨rfl, hI'⟩
    · simp only [if_neg hop, verdictAll_cons_of_ne hb hop]
      exact ih (fun q hq => h q (List.mem_cons_of_mem p hq)) hI'

/-- If the atoms, asked through the index, answer as `ask` has it and keep `I`, so does the
tree. -/
theorem judge_ends
    (h : ∀ a ∈ p.atoms, ∀ ix t, I ix t → (a.ask c ix).Ends t
      (fun r t' => ask a = .ok r.1 ∧ I r.2 t') (fun e _ => ask a = .error e))
    {ix : Option GrantIndex} {t : Session} (hI : I ix t) :
    (judge c p ix).Ends t (fun r t' => p.verdict ask = .ok r.1 ∧ I r.2 t')
      (fun e _ => p.verdict ask = .error e) := by
  induction p generalizing ix t with
  | atom a => exact h a List.mem_cons_self ix t hI
  | group op ps ih =>
    refine judgeAll_ends (fun p hp ix t hI => ?_) hI
    exact ih p hp (fun a ha => h a (mem_atomsAll.2 ⟨p, hp, ha⟩)) hI

theorem judgeAll_keeps {E : Failure → Session → Prop}
    (h : ∀ p ∈ ps, ∀ ix t, I ix t → (judge c p ix).Ends t (fun r t' => I r.2 t') E)
    {ix : Option GrantIndex} {t : Session} (hI : I ix t) :
    (judgeAll c op ps ix).Ends t (fun r t' => I r.2 t') E := by
  induction ps generalizing ix t with
  | nil =>
    rw [judgeAll]
    exact .pure hI
  | cons p ps ih =>
    rw [judgeAll]
    refine .bind (h p List.mem_cons_self ix t hI) ?_
    rintro ⟨b, ix'⟩ t' hI'
    by_cases hop : b = op.absorbing
    · simp only [if_pos hop]
      exact .pure hI'
    · simp only [if_neg hop]
      exact ih (fun q hq => h q (List.mem_cons_of_mem p hq)) hI'

/-- What the atoms keep when they are asked through the index, whatever they answer, the tree
keeps, and it fails as they fail. -/
theorem judge_keeps {E : Failure → Session → Prop}
    (h : ∀ a ∈ p.atoms, ∀ ix t, I ix t → (a.ask c ix).Ends t (fun r t' => I r.2 t') E)
    {ix : Option GrantIndex} {t : Session} (hI : I ix t) :
    (judge c p ix).Ends t (fun r t' => I r.2 t') E := by
  induction p generalizing ix t with
  | atom a => exact h a List.mem_cons_self ix t hI
  | group op ps ih =>
    refine judgeAll_keeps (fun p hp ix t hI => ?_) hI
    exact ih p hp (fun a ha => h a (mem_atomsAll.2 ⟨p, hp, ha⟩)) hI

end

end Predicate

/-! ## Leaves -/

/-- The answer of the leaf if reading a scope comes to what `read` has for it. -/
def Leaf.answer (l : Leaf) (read : String → Except Failure (Option PermissionDomain)) :
    Except Failure Bool :=
  match l.scope, l.permission with
  | some x, some p => (read x).map (l.decides p)
  | _, _ => .ok false

/-- The answer of the leaf on the context by what its scope offers in the session. -/
def Leaf.answerIn (c : Value) (s : Session) (l : Leaf) : Except Failure Bool :=
  if c.mapping?.isSome then l.answer (Context.offer c s)
  else .error (.invalidContext (.notMapping c.kindName))

/-- The answer of the atom on its own, with an index of its own if it is a leaf. -/
def Atom.answerIn (c : Value) (s : Session) : Atom → Except Failure Bool
  | .leaf l => l.answerIn c s
  | a => (((Predicate.atom a).evaluate c).outcome s).1

/-- What holds of the index of a tree, which is opened on a mapping only: `I` has the index that
is open, or else the one that would be opened. -/
structure Shares (c : Value) (I : GrantIndex → Session → Prop) (ix : Option GrantIndex)
    (t : Session) : Prop where
  mapping : ix.isSome → c.mapping?.isSome
  holds : I (ix.getD { context := c }) t

/-- The index is one on the context, and for each of the scopes it yields what the scope offered
in the session `s`. -/
structure Tracks (c : Value) (s : Session) (X : String → Prop) (i : GrantIndex) (t : Session) :
    Prop where
  context : i.context = c
  yields : ∀ x, X x → i.yields t x = Context.offer c s x

/-- Reading one of the scopes keeps `P` and leaves what the others offer. -/
structure Undisturbed (c : Value) (X : String → Prop) (P : Session → Prop) : Prop where
  keeps : ∀ x, X x → ∀ t, P t → ∀ es, P ((t.drainedAt c x).emit es)
  offers : ∀ x, X x → ∀ t, P t → ∀ y, X y → y ≠ x →
    Context.offer c (t.drainedAt c x) y = Context.offer c t y

section

variable {c : Value} {s t : Session} {X : String → Prop} {P : Session → Prop}
  {I : GrantIndex → Session → Prop} {ix : Option GrantIndex} {i : GrantIndex} {l : Leaf}

theorem Shares.start (h : I { context := c } s) : Shares c I none s :=
  ⟨nofun, h⟩

/-- A leaf of a tree keeps what holds of the index if it does so once the index is open. -/
theorem Shares.ask_leaf_ends {Q : Bool → Prop} {E : Failure → Session → Prop}
    (h : Shares c I ix t)
    (hcheck : ∀ i, c.mapping?.isSome → I i t →
      (l.check i).Ends t (fun r t' => Q r.1 ∧ I r.2 t') E)
    (hE : c.mapping?.isSome = false → E (.invalidContext (.notMapping c.kindName)) t) :
    ((Atom.leaf l).ask c ix).Ends t (fun r t' => Q r.1 ∧ Shares c I r.2 t') E := by
  have hopen : (GrantIndex.orOpen c ix).Ends t
      (fun i t' => t' = t ∧ c.mapping?.isSome ∧ I i t) E := by
    cases ix with
    | some i => exact .pure ⟨rfl, h.mapping rfl, h.holds⟩
    | none =>
      rw [GrantIndex.orOpen, GrantIndex.ofContext, Context.ensure]
      cases hm : c.mapping? with
      | none => exact hE (by rw [hm]; rfl)
      | some m => exact ⟨rfl, rfl, h.holds⟩
  rw [Atom.ask]
  refine .bind hopen ?_
  rintro i t' ⟨rfl, hc, hi⟩
  refine .bind (hcheck i hc hi) ?_
  rintro ⟨b, i'⟩ t' ⟨hb, hi'⟩
  exact .pure ⟨hb, fun _ => hc, hi'⟩

/-- At the start nothing has been read, and the context itself offers what it offers. -/
theorem Tracks.start (c : Value) (s : Session) (X : String → Prop) :
    Tracks c s X { context := c } s :=
  ⟨rfl, fun _ _ => rfl⟩

/-- A leaf on an open index answers by what its scope offered at the start. -/
theorem check_ends (hU : Undisturbed c X P) (hl : ∀ x, l.scope = some x → X x)
    (hc : c.mapping?.isSome) (hT : Tracks c s X i t) (hP : P t) :
    (l.check i).Ends t
      (fun r t' => l.answer (Context.offer c s) = .ok r.1 ∧ Tracks c s X r.2 t' ∧ P t')
      (fun e _ => l.answer (Context.offer c s) = .error e) := by
  obtain rfl := hT.context
  rw [Leaf.check, Leaf.answer]
  rcases hx : l.scope with _ | x
  · exact .pure ⟨rfl, hT, hP⟩
  rcases l.permission with _ | p
  · exact .pure ⟨rfl, hT, hP⟩
  have hX := hl x hx
  dsimp only
  rw [← hT.yields x hX]
  refine .bind ((GrantIndex.grants_ends hc).imp (fun _ _ => id) fun e _ he => ?_) ?_
  · rw [he]
    rfl
  · rintro ⟨found, i'⟩ t' ⟨hf, hi', ht', hy⟩
    refine .pure ⟨by rw [hf]; rfl, ⟨hi', fun y hY => ?_⟩, ?_⟩
    · exact (hy y (hU.offers x hX t hP y hY)).trans (hT.yields y hY)
    · rcases ht' with rfl | ⟨es, rfl⟩
      · exact hP
      · exact hU.keeps x hX t hP es

/-- A leaf of a tree answers by what its scope offered at the start, whether the index of the
tree is open by then or not. -/
theorem ask_leaf_ends (hU : Undisturbed c X P) (hl : ∀ x, l.scope = some x → X x)
    (hI : Shares c (fun i t => Tracks c s X i t ∧ P t) ix t) :
    ((Atom.leaf l).ask c ix).Ends t
      (fun r t' => l.answerIn c s = .ok r.1 ∧
        Shares c (fun i t => Tracks c s X i t ∧ P t) r.2 t')
      (fun e _ => l.answerIn c s = .error e) := by
  refine hI.ask_leaf_ends (Q := fun b => l.answerIn c s = .ok b) (fun i hc hi => ?_) fun hc => ?_
  · rw [Leaf.answerIn, if_pos hc]
    exact check_ends hU hl hc hi.1 hi.2
  · rw [Leaf.answerIn, if_neg (by simp [hc])]

/-- A tree comes to its verdict, with the leaves answering by what their scopes offered at the
start, if the other atoms answer through the index as they do on their own. -/
theorem Predicate.evaluate_ends {p : Predicate} (hU : Undisturbed c X P)
    (hX : ∀ x ∈ p.scopes, X x)
    (hother : ∀ a ∈ p.atoms, (∀ l, a ≠ .leaf l) → ∀ ix t,
      Shares c (fun i t => Tracks c s X i t ∧ P t) ix t →
      (a.ask c ix).Ends t
        (fun r t' => a.answerIn c s = .ok r.1 ∧
          Shares c (fun i t => Tracks c s X i t ∧ P t) r.2 t')
        (fun e _ => a.answerIn c s = .error e))
    (hT : Tracks c s X { context := c } t) (hP : P t) :
    (p.evaluate c).Ends t (fun b t' => p.verdict (Atom.answerIn c s) = .ok b ∧ P t')
      (fun e _ => p.verdict (Atom.answerIn c s) = .error e) := by
  rw [evaluate_eq_judge, map_eq_pure_bind]
  refine .bind (judge_ends (I := Shares c fun i t => Tracks c s X i t ∧ P t) ?_
    (.start ⟨hT, hP⟩)) fun r t' h => .pure ⟨h.1, h.2.holds.2⟩
  intro a ha ix t hI
  by_cases hl : ∃ l, a = .leaf l
  · obtain ⟨l, rfl⟩ := hl
    exact ask_leaf_ends hU (fun x hx => hX x (mem_scopes_of_leaf ha hx)) hI
  · exact hother a ha (fun l h => hl ⟨l, h⟩) ix t hI

end

/-- A plain tree is called with the truth value that it comes to for its answer. -/
theorem Predicate.Plain.call_eq_evaluate {p : Predicate} (hp : p.Plain) (c : Value) :
    p.call c = Value.bool <$> p.evaluate c := by
  cases p with
  | atom a =>
    obtain ⟨l, rfl⟩ := hp a List.mem_cons_self
    simp [evaluate, call, Atom.call, Value.truthy]
  | group op ps => rw [evaluate_eq_judge, call_group, Machine.run_start, judge]

end Clearance
