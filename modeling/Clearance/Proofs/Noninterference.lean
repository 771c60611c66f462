import Clearance.Proofs.Verdict

/-!
# What the answer of a tree depends on

A plain tree on a mapping answers by which of its scopes are granted, and which identifiers are
among the grants. Two contexts that agree about this (`Context.SameGrants`) get the same answer,
whatever containers the grants are in, in which order, how often and in which form they come, and
whatever else the contexts have (`Predicate.evaluate_eq_of_sameGrants`).

The leaves of the tree may well read a scope at different times in the two runs. But each of them
answers by what its scope offered at the start (`Predicate.evaluate_plain`), so that the runs need
not be compared step by step.
-/

namespace Clearance

namespace Context

/-- Nothing is granted for the scope: it is absent, or there is `null` under it. -/
def Ungranted (c : Value) (x : String) : Prop :=
  under? c x = none ∨ under? c x = some .null

/-- Under the scope is something that can be read as a sequence of grants, and its items stand
for these identifiers in the session. They can all be keys, and beside those listed there are only
such as no text finds. -/
def Grants (c : Value) (s : Session) (x : String) (ps : List Identifier) : Prop :=
  ∃ v ns, under? c x = some v ∧ v.isUnreadable = false ∧
    ((Run.identifyAll v).outcome s).1 = .ok ns ∧ Value.changeableIn? ns = none ∧
    ns.filterMap Identifier.ofValue? = ps

/-- The scope is granted in both contexts or in none, and the same identifiers are. -/
def SameGrants (c : Value) (s : Session) (c' : Value) (s' : Session) (x : String) : Prop :=
  Ungranted c x ∧ Ungranted c' x ∨
    ∃ ps ps', Grants c s x ps ∧ Grants c' s' x ps' ∧ ∀ p, p ∈ ps ↔ p ∈ ps'

/-- The scope can be read in the session: nothing is granted for it, or some identifiers are. -/
def Readable (c : Value) (s : Session) (x : String) : Prop :=
  Ungranted c x ∨ ∃ ps, Grants c s x ps

/-- No two of the scopes draw from the same source. -/
def Unshared (c : Value) (xs : List String) : Prop :=
  ∀ x ∈ xs, ∀ y ∈ xs, y ≠ x → ∀ id, source? c x = some id → source? c y ≠ some id

variable {c c' : Value} {s s' : Session} {x : String} {ps : List Identifier}

theorem Ungranted.offer (h : Ungranted c x) : offer c s x = .ok none := by
  unfold Context.offer stateIn
  rcases h with h | h <;> rw [h] <;> rfl

/-- The set of what is granted has the identifiers. -/
theorem Grants.offer (h : Grants c s x ps) :
    ∃ d, offer c s x = .ok (some d) ∧ ∀ p, p ∈ d.permissions ↔ p ∈ ps := by
  obtain ⟨v, ns, hv, hr, hi, hfixed, rfl⟩ := h
  rw [Run.outcome_identifyAll] at hi
  refine ⟨.ofValues ns, ?_, fun p => mem_distinct⟩
  rw [offer_of_readable hv hr, show v.identifiedIn s = .ok ns from hi]
  have hgather := PermissionDomain.gather_eq_ok (Value.changeableIn?_eq_none.1 hfixed)
  exact congrArg (Except.map some) hgather

/-- Nothing is shared if no scope but one draws from a source. -/
theorem Unshared.of_only {xs : List String} (x : String)
    (h : ∀ y ∈ xs, ∀ id, source? c y = some id → y = x) : Unshared c xs :=
  fun y hy z hz hzy id hid hid' => hzy ((h z hz id hid').trans (h y hy id hid).symm)

theorem Unshared.undisturbed {xs : List String} (h : Unshared c xs) :
    Undisturbed c (· ∈ xs) fun _ => True where
  keeps _ _ _ _ _ := trivial
  offers x hx _ _ y hy hyx := offer_drainedAt (h x hx y hy hyx)

end Context

/-- A leaf decides by which identifiers are granted. -/
theorem Leaf.decides_of_mem (l : Leaf) (q : String) {d : PermissionDomain} {ps : List Identifier}
    (h : ∀ p, p ∈ d.permissions ↔ p ∈ ps) :
    l.decides q (some d) = l.polarity.holds (decide (some q ∈ ps)) := by
  have hc : d.contains (some q) = decide (some q ∈ ps) := by
    rw [Bool.eq_iff_iff, PermissionDomain.contains, List.contains_iff_mem, decide_eq_true_iff, h]
  rw [decides, hc]

/-- A leaf does not fail where its scope can be read. -/
theorem Leaf.answerIn_of_readable {l : Leaf} {c : Value} {s : Session} (hc : c.mapping?.isSome)
    (h : ∀ x, l.scope = some x → Context.Readable c s x) : ∃ b, l.answerIn c s = .ok b := by
  rw [answerIn, if_pos hc, answer]
  rcases hx : l.scope with _ | x
  · exact ⟨false, rfl⟩
  rcases l.permission with _ | q
  · exact ⟨false, rfl⟩
  rcases h x hx with hn | ⟨ps, hg⟩
  · exact ⟨false, by simp only [hn.offer]; rfl⟩
  · obtain ⟨d, hd, -⟩ := hg.offer
    exact ⟨l.decides q (some d), by simp only [hd]; rfl⟩

/-- A leaf holds where its scope can be read just when it names a permission, something is granted
for the scope, and the permission is among the grants or not, as the leaf has it. -/
theorem Leaf.answerIn_eq_true_iff {l : Leaf} {c : Value} {s : Session} (hc : c.mapping?.isSome)
    (h : ∀ x, l.scope = some x → Context.Readable c s x) :
    l.answerIn c s = .ok true ↔ ∃ x q ps, l.scope = some x ∧ l.permission = some q ∧
      Context.Grants c s x ps ∧ l.polarity.holds (decide (some q ∈ ps)) = true := by
  rw [answerIn, if_pos hc, answer]
  constructor
  · intro ha
    rcases hx : l.scope with _ | x
    · rw [hx] at ha
      cases ha
    rcases hq : l.permission with _ | q
    · rw [hx, hq] at ha
      cases ha
    rw [hx, hq] at ha
    rcases h x hx with hn | ⟨ps, hg⟩
    · simp only [hn.offer] at ha
      cases ha
    · obtain ⟨d, hd, hmem⟩ := hg.offer
      simp only [hd] at ha
      exact ⟨x, q, ps, rfl, rfl, hg, l.decides_of_mem q hmem ▸ Except.ok.inj ha⟩
  · rintro ⟨x, q, ps, hx, hq, hg, hh⟩
    obtain ⟨d, hd, hmem⟩ := hg.offer
    simp only [hx, hq, hd]
    exact congrArg Except.ok ((l.decides_of_mem q hmem).trans hh)

/-- A leaf answers alike where its scope is granted alike. -/
theorem Leaf.answerIn_of_sameGrants {l : Leaf} {c c' : Value} {s s' : Session}
    (hc : c.mapping?.isSome) (hc' : c'.mapping?.isSome)
    (h : ∀ x, l.scope = some x → Context.SameGrants c s c' s' x) :
    ∃ b, l.answerIn c s = .ok b ∧ l.answerIn c' s' = .ok b := by
  rw [answerIn, if_pos hc, answerIn, if_pos hc', answer, answer]
  rcases hx : l.scope with _ | x
  · exact ⟨false, rfl, rfl⟩
  rcases l.permission with _ | p
  · exact ⟨false, rfl, rfl⟩
  rcases h x hx with ⟨hn, hn'⟩ | ⟨ps, ps', hg, hg', hps⟩
  · exact ⟨false, by simp only [hn.offer]; rfl, by simp only [hn'.offer]; rfl⟩
  · obtain ⟨d, hd, hmem⟩ := hg.offer
    obtain ⟨d', hd', hmem'⟩ := hg'.offer
    refine ⟨l.decides p (some d), by simp only [hd]; rfl, ?_⟩
    simp only [hd', l.decides_of_mem p hmem]
    rw [← l.decides_of_mem p fun q => (hmem' q).trans (hps q).symm]
    rfl

namespace Predicate

variable {p : Predicate} {c : Value} {s : Session}

/-- A plain tree comes to its verdict on whatever context, with the leaves answering by what
their scopes offered at the start, if no two scopes draw from the same source. -/
theorem evaluate_plain (hp : p.Plain) (hu : Context.Unshared c p.scopes) :
    ((p.evaluate c).outcome s).1 = p.verdict (Atom.answerIn c s) := by
  refine Run.Ends.result (((evaluate_ends hu.undisturbed (fun _ h => h) ?_
    (Tracks.start c s _) trivial)).imp (fun _ _ h => h.1) fun _ _ => id)
  intro a ha hl
  obtain ⟨l, rfl⟩ := hp a ha
  exact absurd rfl (hl l)

/-- A plain tree answers alike, without failing, in two contexts that grant alike in each of its
scopes. -/
theorem evaluate_eq_of_sameGrants (p : Predicate) (hp : p.Plain) (c c' : Value) (s s' : Session)
    (hc : c.mapping?.isSome) (hc' : c'.mapping?.isSome)
    (hu : Context.Unshared c p.scopes) (hu' : Context.Unshared c' p.scopes)
    (h : ∀ x ∈ p.scopes, Context.SameGrants c s c' s' x) :
    ∃ b, ((p.evaluate c).outcome s).1 = .ok b ∧ ((p.evaluate c').outcome s').1 = .ok b := by
  have hleaf : ∀ a ∈ p.atoms, ∃ b, a.answerIn c s = .ok b ∧ a.answerIn c' s' = .ok b := by
    intro a ha
    obtain ⟨l, rfl⟩ := hp a ha
    exact Leaf.answerIn_of_sameGrants hc hc' fun x hx => h x (mem_scopes_of_leaf ha hx)
  have heq : p.verdict (Atom.answerIn c s) = p.verdict (Atom.answerIn c' s') := by
    refine verdict_congr fun a ha => ?_
    obtain ⟨b, hb, hb'⟩ := hleaf a ha
    rw [hb, hb']
  obtain ⟨b, hb⟩ : ∃ b, p.verdict (Atom.answerIn c s) = .ok b :=
    verdict_ok fun a ha => (hleaf a ha).imp fun _ h => h.1
  rw [evaluate_plain hp hu, evaluate_plain hp hu', ← heq]
  exact ⟨b, hb, hb⟩

/-- The grants of one scope are in a list in one context and in a one-shot source in the other,
where another scope has no grant; in the first there is also something that cannot be read. -/
theorem evaluate_eq_of_sameGrants_list_source :
    let p : Predicate := .group .allOf
      [.atom (.leaf ⟨.has, "user.READ", some "user", some "READ"⟩),
        .group .anyOf [.atom (.leaf ⟨.has, "team.READ", some "team", some "READ"⟩),
          .atom (.leaf ⟨.lacks, "user.WRITE", some "user", some "WRITE"⟩)]]
    let c : Value := .mapping .table
      [(.text "user", .container .list [.text "READ", .text "READ"]), (.text "lab", .int 5)]
    let c' : Value := .mapping (.watched 0) [(.text "team", .null), (.text "user", .source 0)]
    let s' : Session :=
      { sources := [⟨[.member { identity := 1, name := "User", mixin := .none } "R" (.text "READ")],
        none⟩] }
    ∃ b, ((p.evaluate c).outcome {}).1 = .ok b ∧ ((p.evaluate c').outcome s').1 = .ok b := by
  intro p c c' s'
  have hleaf : p.Plain ∧ ∀ x ∈ p.scopes, x = "user" ∨ x = "team" := by
    simp [Plain, mem_scopes, p, atoms, atomsAll, Atom.scopes]
  have hu : Context.Unshared c p.scopes := by
    intro x hx y hy hyx id h
    rcases hleaf.2 x hx with rfl | rfl <;> cases h
  have hu' : Context.Unshared c' p.scopes := by
    intro x hx y hy hyx id h
    rcases hleaf.2 x hx with rfl | rfl
    · rcases hleaf.2 y hy with rfl | rfl
      · exact absurd rfl hyx
      · intro h'
        cases h'
    · cases h
  refine evaluate_eq_of_sameGrants p hleaf.1 c c' {} s' rfl rfl hu hu' fun x hx => ?_
  rcases hleaf.2 x hx with rfl | rfl
  · exact .inr ⟨[some "READ", some "READ"], [some "READ"], ⟨_, _, rfl, rfl, rfl, rfl, rfl⟩,
      ⟨_, _, rfl, rfl, rfl, rfl, rfl⟩, by simp⟩
  · exact .inl ⟨.inl rfl, .inr rfl⟩

end Predicate

end Clearance
