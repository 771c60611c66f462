import Clearance.Proofs.Monotonicity

/-!
# A tree and its dual

The dual of a tree needs any of the children where the tree needs all of them, and asks whether a
permission is missing where the tree asks whether it is there. This is not quite the negation of
the tree: on a scope without a grant a leaf and its dual are both down. So a tree and its dual need
not hold either of them, but a plain one and its dual never hold both, as long as no two scopes draw
from one source (`Predicate.evaluate_dual_of_unshared`).

Where each scope is granted and each leaf names a permission the dual is the negation, and more
than this: the two evaluations go the same way (`Run.Opposed`). A child decides the group in one of
them just when its dual decides the dual group in the other, so that both ask the same leaves in
the same order and leave the same session (`Predicate.evaluate_dual_of_granted`). No leaf has to
know for this what the grants are, only that there are some (`Supplies`), which holds even if
another scope has exhausted their source.
-/

namespace Clearance

def Polarity.dual : Polarity → Polarity
  | .has => .lacks
  | .lacks => .has

def Connective.dual : Connective → Connective
  | .allOf => .anyOf
  | .anyOf => .allOf

@[simp] theorem Connective.absorbing_dual (op : Connective) :
    op.dual.absorbing = !op.absorbing := by
  cases op <;> rfl

namespace Leaf

/-- The leaf on the same path that asks for the opposite. -/
def dual (l : Leaf) : Leaf :=
  { l with polarity := l.polarity.dual }

/-- Whether the path of the leaf named a scope and a permission. -/
def WellFormed (l : Leaf) : Prop :=
  l.scope.isSome ∧ l.permission.isSome

/-- A scope that is granted sets a leaf and its dual apart. -/
theorem decides_dual (l : Leaf) (q : String) (d : PermissionDomain) :
    l.dual.decides q (some d) = !l.decides q (some d) := by
  obtain ⟨polarity, path, scope, permission⟩ := l
  cases polarity <;> simp [dual, Polarity.dual, decides, Polarity.holds]

end Leaf

/-- The dual of a leaf. What callers supply has none and is left as it is. -/
def Atom.dual : Atom → Atom
  | .leaf l => .leaf l.dual
  | a => a

namespace Predicate

mutual

/-- The tree with each connective and each leaf changed into its dual, in the same order. -/
def dual : Predicate → Predicate
  | .atom a => .atom a.dual
  | .group op children => .group op.dual (dualAll children)

def dualAll : List Predicate → List Predicate
  | [] => []
  | p :: ps => dual p :: dualAll ps

end

variable {p : Predicate} {x : String}

theorem dualAll_eq_map (ps : List Predicate) : dualAll ps = ps.map dual := by
  induction ps with
  | nil => rfl
  | cons p ps ih => rw [dualAll, ih, List.map_cons]

theorem atomsAll_dual {ps : List Predicate} (h : ∀ p ∈ ps, p.dual.atoms = p.atoms.map Atom.dual) :
    atomsAll (dualAll ps) = (atomsAll ps).map Atom.dual := by
  induction ps with
  | nil => rfl
  | cons p ps ih =>
    rw [dualAll, atomsAll, atomsAll, List.map_append, h p List.mem_cons_self,
      ih fun q hq => h q (List.mem_cons_of_mem p hq)]

theorem atoms_dual (p : Predicate) : p.dual.atoms = p.atoms.map Atom.dual := by
  induction p with
  | atom a => rfl
  | group op ps ih => exact atomsAll_dual ih

theorem Plain.dual (hp : p.Plain) : p.dual.Plain := by
  rw [Plain, atoms_dual]
  intro d hd
  obtain ⟨a, ha, rfl⟩ := List.mem_map.1 hd
  obtain ⟨l, rfl⟩ := hp a ha
  exact ⟨l.dual, rfl⟩

/-- The dual of a tree has the scopes of the tree. -/
theorem mem_scopes_dual : x ∈ p.dual.scopes ↔ x ∈ p.scopes := by
  have hscopes : ∀ a : Atom, a.dual.scopes = a.scopes := by
    intro a
    cases a <;> rfl
  rw [mem_scopes, mem_scopes, atoms_dual]
  constructor
  · rintro ⟨d, hd, hx⟩
    obtain ⟨a, ha, rfl⟩ := List.mem_map.1 hd
    exact ⟨a, ha, hscopes a ▸ hx⟩
  · rintro ⟨a, ha, hx⟩
    exact ⟨a.dual, List.mem_map_of_mem ha, (hscopes a).symm ▸ hx⟩

/-! ## Not both -/

/-- If no atom holds together with its dual, neither does the tree. -/
theorem verdict_dual {ask : Atom → Except Failure Bool}
    (h : ∀ a ∈ p.atoms, ask a = .ok true → ask a.dual ≠ .ok true)
    (hv : p.verdict ask = .ok true) : p.dual.verdict ask ≠ .ok true := by
  induction p with
  | atom a => exact h a List.mem_cons_self hv
  | group op ps ih =>
    have hps : ∀ p ∈ ps, p.verdict ask = .ok true → p.dual.verdict ask ≠ .ok true :=
      fun p hp => ih p hp fun a ha => h a (mem_atomsAll.2 ⟨p, hp, ha⟩)
    intro hd
    rw [dual, dualAll_eq_map] at hd
    cases op with
    | allOf =>
      obtain ⟨d, hd, hdv⟩ := exists_of_verdictAll_absorbing hd
      obtain ⟨p, hp, rfl⟩ := List.mem_map.1 hd
      exact hps p hp (verdictAll_allOf_iff.1 hv p hp) hdv
    | anyOf =>
      obtain ⟨p, hp, hpv⟩ := exists_of_verdictAll_absorbing hv
      exact hps p hp hpv (verdictAll_allOf_iff.1 hd _ (List.mem_map_of_mem hp))

end Predicate

/-- A leaf does not hold together with its dual. -/
theorem Leaf.answerIn_dual {l : Leaf} {c : Value} {s : Session} (hc : c.mapping?.isSome)
    (h : ∀ x, l.scope = some x → Context.Readable c s x) (hl : l.answerIn c s = .ok true) :
    l.dual.answerIn c s ≠ .ok true := by
  intro hd
  obtain ⟨x, q, ps, hx, hq, hg, hh⟩ := (answerIn_eq_true_iff hc h).1 hl
  obtain ⟨x', q', ps', hx', hq', hg', hh'⟩ := (answerIn_eq_true_iff (l := l.dual) hc h).1 hd
  obtain rfl : x = x' := Option.some.inj (hx.symm.trans hx')
  obtain rfl : q = q' := Option.some.inj (hq.symm.trans hq')
  obtain rfl := hg.unique hg'
  have hmem : ∀ p, p ∈ (PermissionDomain.ofIdentifiers ps).permissions ↔ p ∈ ps :=
    fun p => mem_distinct
  have hopposite := l.decides_dual q (.ofIdentifiers ps)
  rw [decides_of_mem _ q hmem, decides_of_mem _ q hmem] at hopposite
  rw [hopposite, hh] at hh'
  cases hh'

/-! ## Exactly one -/

/-- Started in the session neither of the runs fails. They answer the opposite, with the same
beside the answer, and end in the same session, and of both `I` holds. -/
def Run.Opposed {α : Type} (x y : Run (Bool × α)) (I : α → Session → Prop) (s : Session) : Prop :=
  ∃ b r t, x.outcome s = (.ok (b, r), t) ∧ y.outcome s = (.ok (!b, r), t) ∧ I r t

/-- The index is one on the context, and each of the scopes has a grant, which may be empty. -/
structure Supplies (c : Value) (X : String → Prop) (i : GrantIndex) (t : Session) : Prop where
  context : i.context = c
  granted : ∀ x, X x → ∃ d, i.yields t x = .ok (some d)

section

variable {c : Value} {s t : Session} {X : String → Prop} {i : GrantIndex}
  {ix : Option GrantIndex} {l : Leaf} {x y : String}

/-- A scope with a grant has one after another scope has been read, if only an empty one. -/
theorem Context.granted_drainedAt {d : PermissionDomain} (h : offer c s y = .ok (some d)) :
    ∃ d, offer c (s.drainedAt c x) y = .ok (some d) := by
  by_cases hxy : ∃ id, source? c x = some id ∧ source? c y = some id
  · obtain ⟨id, hx, hy⟩ := hxy
    obtain ⟨v, ps, hv, hr, hi⟩ := readable_of_offer h
    have hid : v.source? = some id := (source?_eq hv).symm.trans hy
    rw [Value.identifiedIn_of_source? hid] at hi
    refine ⟨.ofValues [], ?_⟩
    rw [offer_of_readable hv hr, Value.identifiedIn_of_source? hid, source_drainedAt_self hx,
      Handling.after_of_mapM (Handling.gather_eq_ok.1 hi).1]
    rfl
  · exact ⟨d, (offer_drainedAt fun id hx hy => hxy ⟨id, hx, hy⟩).trans h⟩

theorem Supplies.emit (h : Supplies c X i t) (es : List Event) : Supplies c X i (t.emit es) :=
  ⟨h.context, h.granted⟩

/-- Reading a scope that has a grant leaves the others theirs. -/
theorem Supplies.read (h : Supplies c X i t) (x : String) (d : PermissionDomain) :
    Supplies c X (i.remembering x (some d)) (t.drainedAt c x) where
  context := h.context
  granted y hy := by
    by_cases hyx : y = x
    · exact ⟨d, by rw [hyx, GrantIndex.yields_remembering_self]⟩
    obtain ⟨d', hd'⟩ := h.granted y hy
    rw [GrantIndex.yields_remembering_of_ne hyx]
    rw [GrantIndex.yields] at hd' ⊢
    cases hm : i.memo.lookup y with
    | some found =>
      rw [hm] at hd'
      exact ⟨d', hd'⟩
    | none =>
      rw [hm, h.context] at hd'
      rw [h.context]
      exact Context.granted_drainedAt hd'

/-- Asking for a scope that has a grant finds one. -/
theorem Supplies.grants (h : Supplies c X i t) (hc : c.mapping?.isSome) (hx : X x) :
    ∃ d i' t', (i.grants x).outcome t = (.ok (some d, i'), t') ∧ Supplies c X i' t' := by
  obtain rfl := h.context
  obtain ⟨d, hd⟩ := h.granted x hx
  rw [GrantIndex.yields] at hd
  rw [GrantIndex.grants]
  cases hm : i.memo.lookup x with
  | some found =>
    rw [hm] at hd
    cases hd
    exact ⟨d, i, t, rfl, h⟩
  | none =>
    rw [hm] at hd
    refine ⟨d, _, _, ?_, (h.read x d).emit (Context.readingEvents i.context t x)⟩
    simp only [GrantIndex.outcome_read hc, hd]
    rfl

/-- A leaf and its dual read the same scope and answer the opposite. -/
theorem Supplies.check_dual (h : Supplies c X i t) (hc : c.mapping?.isSome) (hw : l.WellFormed)
    (hl : ∀ x, l.scope = some x → X x) :
    (l.check i).Opposed (l.dual.check i) (Supplies c X) t := by
  obtain ⟨x, hx⟩ := Option.isSome_iff_exists.1 hw.1
  obtain ⟨q, hq⟩ := Option.isSome_iff_exists.1 hw.2
  obtain ⟨d, i', t', hg, h'⟩ := h.grants hc (hl x hx)
  refine ⟨l.decides q (some d), i', t', ?_, ?_, h'⟩
  · simp only [Leaf.check, hx, hq, Run.outcome_bind, hg, Run.outcome_pure]
  · rw [← l.decides_dual, Leaf.check, show l.dual.scope = some x from hx,
      show l.dual.permission = some q from hq]
    simp only [Run.outcome_bind, hg, Run.outcome_pure]

theorem GrantIndex.outcome_orOpen (hc : c.mapping?.isSome) :
    (orOpen c ix).outcome t = (.ok (ix.getD { context := c }), t) := by
  cases ix with
  | some i => rfl
  | none => exact outcome_ofContext hc

theorem Shares.ask_dual (h : Shares c (Supplies c X) ix t) (hc : c.mapping?.isSome)
    (hw : l.WellFormed) (hl : ∀ x, l.scope = some x → X x) :
    ((Atom.leaf l).ask c ix).Opposed ((Atom.leaf l.dual).ask c ix) (Shares c (Supplies c X)) t := by
  obtain ⟨b, i', t', hb, hd, h'⟩ := h.holds.check_dual hc hw hl
  refine ⟨b, some i', t', ?_, ?_, ⟨fun _ => hc, h'⟩⟩ <;>
    simp only [Atom.ask, Run.outcome_bind, GrantIndex.outcome_orOpen hc, hb, hd, Run.outcome_pure]

namespace Predicate

variable {I : Option GrantIndex → Session → Prop} {op : Connective} {p : Predicate}
  {ps : List Predicate}

theorem judgeAll_dual
    (h : ∀ p ∈ ps, ∀ ix t, I ix t → (judge c p ix).Opposed (judge c p.dual ix) I t)
    (hI : I ix t) :
    (judgeAll c op ps ix).Opposed (judgeAll c op.dual (dualAll ps) ix) I t := by
  induction ps generalizing ix t with
  | nil =>
    refine ⟨!op.absorbing, ix, t, rfl, ?_, hI⟩
    rw [← op.absorbing_dual]
    rfl
  | cons p ps ih =>
    obtain ⟨b, ix', t', hb, hd, hI'⟩ := h p List.mem_cons_self ix t hI
    simp only [Run.Opposed, dualAll, judgeAll, Run.outcome_bind, hb, hd, op.absorbing_dual,
      Bool.not_inj_iff]
    -- a child decides the group just when its dual decides the dual group
    by_cases hop : b = op.absorbing
    · simp only [if_pos hop]
      exact ⟨b, ix', t', rfl, rfl, hI'⟩
    · simp only [if_neg hop]
      exact ih (fun q hq => h q (List.mem_cons_of_mem p hq)) hI'

/-- If the atoms, asked through the index, answer the opposite of their duals, so does the tree. -/
theorem judge_dual
    (h : ∀ a ∈ p.atoms, ∀ ix t, I ix t → (a.ask c ix).Opposed (a.dual.ask c ix) I t)
    (hI : I ix t) : (judge c p ix).Opposed (judge c p.dual ix) I t := by
  induction p generalizing ix t with
  | atom a => exact h a List.mem_cons_self ix t hI
  | group op ps ih =>
    refine judgeAll_dual (fun p hp ix t hI => ?_) hI
    exact ih p hp (fun a ha => h a (mem_atomsAll.2 ⟨p, hp, ha⟩)) hI

/-- A plain tree whose scopes can be read comes to a verdict. -/
theorem verdict_plain_ok (hp : p.Plain) (hc : c.mapping?.isSome)
    (hr : ∀ x ∈ p.scopes, Context.Readable c s x) :
    ∃ b, p.verdict (Atom.answerIn c s) = .ok b := by
  refine verdict_ok fun a ha => ?_
  obtain ⟨l, rfl⟩ := hp a ha
  exact Leaf.answerIn_of_readable hc fun x hx => hr x (mem_scopes_of_leaf ha hx)

/-- Neither a plain tree nor its dual fails, and they do not hold both. -/
theorem evaluate_dual_of_unshared (hp : p.Plain) (hc : c.mapping?.isSome)
    (hr : ∀ x ∈ p.scopes, Context.Readable c s x) (hu : Context.Unshared c p.scopes) :
    ∃ b b', ((p.evaluate c).outcome s).1 = .ok b ∧ ((p.dual.evaluate c).outcome s).1 = .ok b' ∧
      ¬ (b = true ∧ b' = true) := by
  have hscopes : ∀ x ∈ p.dual.scopes, x ∈ p.scopes := fun _ => mem_scopes_dual.1
  have hu' : Context.Unshared c p.dual.scopes :=
    fun x hx y hy => hu x (hscopes x hx) y (hscopes y hy)
  obtain ⟨b, hb⟩ := verdict_plain_ok hp hc hr
  obtain ⟨b', hb'⟩ := verdict_plain_ok hp.dual hc fun x hx => hr x (hscopes x hx)
  refine ⟨b, b', (evaluate_plain hp hu).trans hb, (evaluate_plain hp.dual hu').trans hb', ?_⟩
  rintro ⟨rfl, rfl⟩
  refine verdict_dual (fun a ha => ?_) hb hb'
  obtain ⟨l, rfl⟩ := hp a ha
  exact Leaf.answerIn_dual hc fun x hx => hr x (mem_scopes_of_leaf ha hx)

/-- Where every scope is granted, a plain tree and its dual go the same way to opposite answers. -/
theorem evaluate_dual_of_granted (hp : p.Plain) (hc : c.mapping?.isSome)
    (hw : ∀ l, .leaf l ∈ p.atoms → l.WellFormed)
    (hg : ∀ x ∈ p.scopes, ∃ ps, Context.Grants c s x ps) :
    ∃ b t, (p.evaluate c).outcome s = (.ok b, t) ∧
      (p.dual.evaluate c).outcome s = (.ok (!b), t) := by
  have hstart : Supplies c (· ∈ p.scopes) { context := c } s := by
    refine ⟨rfl, fun x hx => ?_⟩
    obtain ⟨ps, hps⟩ := hg x hx
    exact hps.offer.imp fun _ h => h.1
  have hask : ∀ a ∈ p.atoms, ∀ ix t, Shares c (Supplies c (· ∈ p.scopes)) ix t →
      (a.ask c ix).Opposed (a.dual.ask c ix) (Shares c (Supplies c (· ∈ p.scopes))) t := by
    intro a ha ix t hI
    obtain ⟨l, rfl⟩ := hp a ha
    exact hI.ask_dual hc (hw l ha) fun x hx => mem_scopes_of_leaf ha hx
  obtain ⟨b, ix, t, hb, hd, -⟩ := judge_dual hask (.start hstart)
  refine ⟨b, t, ?_, ?_⟩
  · rw [evaluate_eq_judge, Run.outcome_map, hb]
    rfl
  · rw [evaluate_eq_judge, Run.outcome_map, hd]
    rfl

/-- Let the scopes of a plain tree be readable. Neither the tree nor its dual fails, and they do
not hold both if no two of the scopes draw from one source. If all scopes are granted, and each leaf
names a permission, just one of them holds, from whatever source the grants come; and they leave the
same session, so that they have read the same in the same order. -/
theorem evaluate_dual (p : Predicate) (hp : p.Plain) (c : Value) (s : Session)
    (hc : c.mapping?.isSome) (hr : ∀ x ∈ p.scopes, Context.Readable c s x) :
    (Context.Unshared c p.scopes → ∃ b b', ((p.evaluate c).outcome s).1 = .ok b ∧
      ((p.dual.evaluate c).outcome s).1 = .ok b' ∧ ¬ (b = true ∧ b' = true)) ∧
    ((∀ l, .leaf l ∈ p.atoms → l.WellFormed) → (∀ x ∈ p.scopes, ∃ ps, Context.Grants c s x ps) →
      ∃ b t, (p.evaluate c).outcome s = (.ok b, t) ∧
        (p.dual.evaluate c).outcome s = (.ok (!b), t)) :=
  ⟨evaluate_dual_of_unshared hp hc hr, evaluate_dual_of_granted hp hc⟩

/-- One scope is granted a list and the other one a one-shot source. The tree holds by its last
leaf, and the dual of this leaf turns the dual tree down. -/
theorem evaluate_dual_list_source :
    let p : Predicate := .group .anyOf
      [.group .allOf [.atom (.leaf ⟨.lacks, "lab.READ", some "lab", some "READ"⟩),
          .atom (.leaf ⟨.has, "user.READ", some "user", some "READ"⟩)],
        .group .anyOf [],
        .atom (.leaf ⟨.lacks, "user.WRITE", some "user", some "WRITE"⟩)]
    let c : Value := .mapping .table
      [(.text "lab", .container .list [.text "READ"]), (.text "user", .source 0)]
    let s : Session := { sources := [⟨[.text "READ"], none⟩] }
    (∃ b b', ((p.evaluate c).outcome s).1 = .ok b ∧ ((p.dual.evaluate c).outcome s).1 = .ok b' ∧
        ¬ (b = true ∧ b' = true)) ∧
      ∃ b t, (p.evaluate c).outcome s = (.ok b, t) ∧
        (p.dual.evaluate c).outcome s = (.ok (!b), t) := by
  intro p c s
  have hp : p.Plain ∧ (∀ l, .leaf l ∈ p.atoms → l.WellFormed) ∧
      ∀ x ∈ p.scopes, x = "lab" ∨ x = "user" := by
    simp [Plain, mem_scopes, p, atoms, atomsAll, Atom.scopes, Leaf.WellFormed]
  obtain ⟨hplain, hw, hx⟩ := hp
  have hg : ∀ x ∈ p.scopes, ∃ ps, Context.Grants c s x ps := by
    intro x h
    rcases hx x h with rfl | rfl <;> exact ⟨_, _, _, rfl, rfl, rfl, rfl, rfl⟩
  have hu : Context.Unshared c p.scopes := by
    intro x h y h' hyx id hid
    rcases hx x h with rfl | rfl
    · cases hid
    · rcases hx y h' with rfl | rfl
      · intro hid'
        cases hid'
      · exact absurd rfl hyx
  have hdual := evaluate_dual p hplain c s rfl fun x h => .inr (hg x h)
  exact ⟨hdual.1 hu, hdual.2 hw hg⟩

/-- Two scopes draw from one source. The tree reads `b` first and finds the grant. Its dual has to
read `a` before, which leaves nothing to `b`, and so it finds the grant missing. -/
theorem evaluate_dual_both_of_shared_source :
    let p : Predicate := .group .anyOf
      [.group .allOf [.atom (.leaf ⟨.has, "u.READ", some "u", some "READ"⟩),
          .atom (.leaf ⟨.has, "a.WRITE", some "a", some "WRITE"⟩)],
        .atom (.leaf ⟨.has, "b.READ", some "b", some "READ"⟩)]
    let c : Value := .mapping .table [(.text "a", .source 0), (.text "b", .source 0)]
    let s : Session := { sources := [⟨[.text "READ"], none⟩] }
    p.Plain ∧ c.mapping?.isSome ∧ (∀ x ∈ p.scopes, Context.Readable c s x) ∧
      ((p.evaluate c).outcome s).1 = .ok true ∧ ((p.dual.evaluate c).outcome s).1 = .ok true := by
  intro p c s
  have hp : p.Plain ∧ ∀ x ∈ p.scopes, x = "u" ∨ x = "a" ∨ x = "b" := by
    simp [Plain, mem_scopes, p, atoms, atomsAll, Atom.scopes]
  refine ⟨hp.1, rfl, fun x hx => ?_, ?_, ?_⟩
  · rcases hp.2 x hx with rfl | rfl | rfl
    · exact .inl (.inl rfl)
    · exact .inr ⟨_, _, _, rfl, rfl, rfl, rfl, rfl⟩
    · exact .inr ⟨_, _, _, rfl, rfl, rfl, rfl, rfl⟩
  · rw [evaluate_eq_judge]
    rfl
  · rw [evaluate_eq_judge]
    rfl

end Predicate

end

end Clearance
