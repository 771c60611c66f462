import Clearance.Proofs.Verdict

/-!
# How an evaluation fails

A plain tree fails on a mapping because of what is under a scope: something that is neither null nor
readable as a list of grants (`Context.Defective`). Whether it is noticed depends on the leaves that
are reached (`Predicate.asked`). The evaluation ends with the first one of them that meets a defect
(`Leaf.fault`), since a scope that has been read before had none, and so a tree whose scopes have no
defects does not fail at all (`Predicate.call_fails_by_leaf`).

This takes it that what is readable can be gathered (`Context.Steady`). A list may hold a grant that
has no identifier, and then it is the grant by which the tree fails
(`Predicate.call_fails_by_grant`).

On what is no mapping the first leaf that is reached fails, whether or not it names a permission. A
tree that reaches no leaf there does not reach any on other contexts either
(`Predicate.idle_or_refuses`).

Both rest on one rule: if every atom that is asked fails by a fault of its own or else keeps what is
known, then the first fault among the atoms asked is the failure of the tree
(`Predicate.judge_asked_ends`).
-/

namespace Clearance

namespace Predicate

/-! ## The atoms that are reached -/

mutual

/-- The atoms that are asked when the tree is judged with the index in the session, in order. -/
def asked (c : Value) : Predicate → Option GrantIndex → Session → List Atom
  | .atom a, _, _ => [a]
  | .group op children, ix, s => askedAll c op children ix s

/-- The atoms that are asked on the way through the children that are left. -/
def askedAll (c : Value) (op : Connective) :
    List Predicate → Option GrantIndex → Session → List Atom
  | [], _, _ => []
  | p :: ps, ix, s =>
    asked c p ix s ++
      match (judge c p ix).outcome s with
      | (.ok (b, ix'), t) => if b = op.absorbing then [] else askedAll c op ps ix' t
      | (.error _, _) => []

end

variable {c : Value} {op : Connective} {p : Predicate} {ps : List Predicate}
  {ix : Option GrantIndex} {s : Session}

theorem askedAll_sublist
    (h : ∀ p ∈ ps, ∀ ix s, (p.asked c ix s).Sublist p.atoms) (ix : Option GrantIndex)
    (s : Session) : (askedAll c op ps ix s).Sublist (atomsAll ps) := by
  induction ps generalizing ix s with
  | nil => exact .refl _
  | cons p ps ih =>
    rw [askedAll, atomsAll]
    refine (h p List.mem_cons_self ix s).append ?_
    split
    · split
      · exact List.nil_sublist _
      · exact ih (fun q hq => h q (List.mem_cons_of_mem p hq)) _ _
    · exact List.nil_sublist _

/-- The atoms that are asked are some of the tree, from left to right. -/
theorem asked_sublist (p : Predicate) (c : Value) (ix : Option GrantIndex) (s : Session) :
    (p.asked c ix s).Sublist p.atoms := by
  induction p generalizing ix s with
  | atom a => exact .refl _
  | group op ps ih => exact askedAll_sublist ih ix s

/-! ## The first fault -/

/-- The failure is the first fault among the atoms, and that of the last one. -/
def FailsLast (fault : Atom → Option Failure) (as : List Atom) (e : Failure) : Prop :=
  ∃ before a, as = before ++ [a] ∧ fault a = some e ∧ ∀ b ∈ before, fault b = none

variable {fault : Atom → Option Failure} {I : Option GrantIndex → Session → Prop}

theorem FailsLast.append {as bs : List Atom} {e : Failure} (ha : ∀ a ∈ as, fault a = none)
    (h : FailsLast fault bs e) : FailsLast fault (as ++ bs) e := by
  obtain ⟨before, b, rfl, hb, hbefore⟩ := h
  refine ⟨as ++ before, b, (List.append_assoc ..).symm, hb, fun x hx => ?_⟩
  exact (List.mem_append.1 hx).elim (ha x) (hbefore x)

theorem judgeAll_asked_ends
    (h : ∀ p ∈ ps, ∀ ix t, I ix t → (judge c p ix).Ends t
      (fun r t' => (∀ a ∈ p.asked c ix t, fault a = none) ∧ I r.2 t')
      fun e _ => FailsLast fault (p.asked c ix t) e)
    (hI : I ix s) :
    (judgeAll c op ps ix).Ends s
      (fun r t => (∀ a ∈ askedAll c op ps ix s, fault a = none) ∧ I r.2 t)
      fun e _ => FailsLast fault (askedAll c op ps ix s) e := by
  induction ps generalizing ix s with
  | nil =>
    rw [judgeAll]
    exact .pure ⟨fun _ ha => absurd ha List.not_mem_nil, hI⟩
  | cons p ps ih =>
    have hp := h p List.mem_cons_self ix s hI
    rw [judgeAll, askedAll]
    unfold Run.Ends at hp ⊢
    rw [Run.outcome_bind]
    rcases hj : (judge c p ix).outcome s with ⟨e | ⟨b, ix'⟩, t⟩ <;> rw [hj] at hp
    · simpa using hp
    · by_cases hop : b = op.absorbing
      · simpa [hop] using hp
      · have hps := ih (fun q hq => h q (List.mem_cons_of_mem p hq)) hp.2
        unfold Run.Ends at hps
        simp only [if_neg hop]
        rcases hr : (judgeAll c op ps ix').outcome t with ⟨e | r, u⟩ <;> rw [hr] at hps
        · exact hps.append hp.1
        · exact ⟨fun a ha => (List.mem_append.1 ha).elim (hp.1 a) (hps.1 a), hps.2⟩

/-- If each atom that is asked fails by its fault, or has none and keeps `I`, then the tree fails by
the first fault of the atoms that are asked, the last of which has it, or none of them has one. -/
theorem judge_asked_ends
    (h : ∀ a ∈ p.atoms, ∀ ix t, I ix t → (a.ask c ix).Ends t
      (fun r t' => fault a = none ∧ I r.2 t') fun e _ => fault a = some e)
    (hI : I ix s) :
    (judge c p ix).Ends s (fun r t => (∀ a ∈ p.asked c ix s, fault a = none) ∧ I r.2 t)
      fun e _ => FailsLast fault (p.asked c ix s) e := by
  induction p generalizing ix s with
  | atom a =>
    refine (h a List.mem_cons_self ix s hI).imp (fun r t hr => ⟨?_, hr.2⟩) fun e _ he => ?_
    · exact fun b hb => List.mem_singleton.1 hb ▸ hr.1
    · exact ⟨[], a, rfl, he, fun _ hb => absurd hb List.not_mem_nil⟩
  | group op ps ih =>
    exact judgeAll_asked_ends
      (fun p hp ix t hI => ih p hp (fun a ha => h a (mem_atomsAll.2 ⟨p, hp, ha⟩)) hI) hI

end Predicate

/-! ## Defects of a context -/

/-- What can be read can be gone through. -/
theorem Value.exists_stockIn {v : Value} (hr : v.isUnreadable = false) (s : Session) :
    ∃ y, v.stockIn s = .ok y := by
  unfold stockIn
  cases hi : Iteration.of? v with
  | none =>
    have hu : v.isUnreadable = true := by
      unfold isUnreadable
      split
      · rfl
      · rw [hi, Option.isNone_none, Bool.or_true]
    rw [hu] at hr
    cases hr
  | some it => exact ⟨_, rfl⟩

namespace Context

/-- Under the scope is something that is not null and cannot be read as a list of grants: a text,
octets, or what cannot be iterated over. -/
def Defective (c : Value) (x : String) (v : Value) : Prop :=
  under? c x = some v ∧ v ≠ .null ∧ v.isUnreadable = true

/-- How reading the scope fails because of what is under it, if it does. -/
def fault (c : Value) (x : String) : Option Failure :=
  match under? c x with
  | none | some .null => none
  | some v =>
    if v.isUnreadable then some (.invalidContext (.unreadableGrants x v.kindName)) else none

/-- What is readable under the scope can be gathered in the session: it yields all of its items, and
each of them has an identifier that can be a key. -/
def Steady (c : Value) (s : Session) (x : String) : Prop :=
  ∀ v y, under? c x = some v → v.isUnreadable = false → v.stockIn s = .ok y →
    y.failure = none ∧
      ∀ w ∈ y.items, ∃ p, (w.now s.lists).identified = .ok p ∧ p.changeable? = none

variable {c v : Value} {s t : Session} {x y : String} {e : Failure}

theorem fault_of_defective (h : Defective c x v) :
    fault c x = some (.invalidContext (.unreadableGrants x v.kindName)) := by
  obtain ⟨hu, hn, hr⟩ := h
  rw [fault, hu]
  split
  · next hv => cases hv
  · next hv => exact absurd (Option.some.inj hv) hn
  · next hv => rw [← Option.some.inj hv, if_pos hr]

/-- A fault tells what is defective. -/
theorem defective_of_fault (h : fault c x = some e) :
    ∃ v, Defective c x v ∧ e = .invalidContext (.unreadableGrants x v.kindName) := by
  unfold fault at h
  split at h
  · cases h
  · cases h
  · next v hn hu =>
    split at h
    · next hr => exact ⟨v, ⟨hu, hn, hr⟩, (Option.some.inj h).symm⟩
    · cases h

/-- A scope with a fault offers nothing, whatever the session is. -/
theorem offer_of_fault (h : fault c x = some e) : offer c s x = .error e := by
  obtain ⟨v, ⟨hu, hn, hr⟩, rfl⟩ := defective_of_fault h
  rw [offer, stateIn, hu]
  split
  · next hv => cases hv
  · next hv => exact absurd (Option.some.inj hv) hn
  · next hv => rw [← Option.some.inj hv, if_pos hr]; rfl

/-- What can be gathered has identifiers, all of which can be keys. -/
theorem Steady.identifiedIn (hs : Steady c s x) (hu : under? c x = some v)
    (hr : v.isUnreadable = false) :
    ∃ ps, v.identifiedIn s = .ok ps ∧ ∀ p ∈ ps, p.changeable? = none := by
  obtain ⟨y, hy⟩ := Value.exists_stockIn hr s
  obtain ⟨hfailure, hitems⟩ := hs v y hu hr hy
  obtain ⟨ps, hps⟩ := exists_mapM_eq_ok (f := (Handling.identifying s.lists).result)
    fun w hw => (hitems w hw).imp fun _ h => h.1
  have hgather : (Handling.identifying s.lists).gather y = .ok ps :=
    Handling.gather_eq_ok.2 ⟨hps, hfailure⟩
  refine ⟨ps, ?_, fun p hp => ?_⟩
  · rw [Value.identifiedIn, Handling.gatherIn, hy]
    exact hgather
  · obtain ⟨w, hw, hp⟩ := (mem_of_mapM_eq_ok hps).1 hp
    obtain ⟨p', hp', hfixed⟩ := hitems w hw
    obtain rfl : p' = p := Except.ok.inj (hp'.symm.trans hp)
    exact hfixed

/-- A scope without a fault offers something, if what is there can be gathered. -/
theorem offer_of_steady (h : fault c x = none) (hs : Steady c s x) :
    ∃ found, offer c s x = .ok found := by
  unfold fault at h
  split at h
  · next hu => exact ⟨none, by rw [offer, stateIn, hu]; rfl⟩
  · next hu => exact ⟨none, by rw [offer, stateIn, hu]; rfl⟩
  · next v hn hu =>
    split at h
    · cases h
    · next hr =>
      have hreadable : v.isUnreadable = false := Bool.not_eq_true _ ▸ hr
      obtain ⟨ps, hps, hfixed⟩ := hs.identifiedIn hu hreadable
      refine ⟨some (.ofValues ps), ?_⟩
      rw [offer_of_readable hu hreadable, hps]
      exact congrArg (Except.map some) (PermissionDomain.gather_eq_ok hfixed)

/-- Reading a scope leaves what can be gathered as something that can. -/
theorem Steady.drainedAt (h : Steady c s y) (x : String) : Steady c (s.drainedAt c x) y := by
  intro v z hu hr hz
  rw [s.lists_drainedAt c x]
  by_cases hshared : ∃ id, source? c x = some id ∧ v.source? = some id
  · -- what is left there has been there before
    obtain ⟨id, hx, hid⟩ := hshared
    obtain ⟨w, hw, hwid⟩ := Option.bind_eq_some_iff.1 hx
    obtain ⟨hfailure, hitems⟩ := h v _ hu hr (Value.stockIn_of_source? hid s)
    rw [Value.stockIn_of_source? hid, Session.drainedAt, hw] at hz
    cases hz
    dsimp only
    rw [Session.drained, Handling.source_sessionAfter hwid]
    refine ⟨Handling.failure_after hfailure, fun u hmem => ?_⟩
    exact hitems u (Handling.items_after_subset hmem)
  · refine h v z hu hr ?_
    rw [← hz]
    refine (Value.stockIn_congr (s.lists_drainedAt c x) fun id hid => ?_).symm
    exact source_drainedAt (fun j hj hy => hshared ⟨j, hj, (source?_eq hu).symm.trans hy⟩)
      ((source?_eq hu).trans hid)

end Context

/-- How the leaf fails when it is reached on a mapping, if it does. A leaf that names no permission
reads nothing. -/
def Leaf.fault (c : Value) (l : Leaf) : Option Failure :=
  match l.scope, l.permission with
  | some x, some _ => Context.fault c x
  | _, _ => none

/-- The fault of a leaf; no other atom has any. -/
def Atom.fault (c : Value) : Atom → Option Failure
  | .leaf l => l.fault c
  | _ => none

/-- The index is one on the context and has read no scope with a fault, and what is under each of
the scopes can be gathered if it can be read. -/
structure Unharmed (c : Value) (X : String → Prop) (i : GrantIndex) (t : Session) : Prop where
  context : i.context = c
  sound : ∀ x found, i.memo.lookup x = some found → Context.fault c x = none
  steady : ∀ x, X x → Context.Steady c t x

section

variable {c : Value} {s t : Session} {X : String → Prop} {i : GrantIndex} {x : String} {l : Leaf}

theorem Unharmed.start (h : ∀ x, X x → Context.Steady c s x) : Unharmed c X { context := c } s :=
  ⟨rfl, nofun, h⟩

/-- Asking for one of the scopes fails by its fault, or it has none. -/
theorem Unharmed.grants_ends (h : Unharmed c X i t) (hc : c.mapping?.isSome) (hx : X x) :
    (i.grants x).Ends t (fun r t' => Context.fault c x = none ∧ Unharmed c X r.2 t')
      fun e _ => Context.fault c x = some e := by
  obtain rfl := h.context
  unfold Run.Ends GrantIndex.grants
  cases hm : i.memo.lookup x with
  | some found => exact ⟨h.sound x found hm, h⟩
  | none =>
    simp only [GrantIndex.outcome_read hc]
    cases hf : Context.fault i.context x with
    | some e =>
      rw [Context.offer_of_fault hf]
      rfl
    | none =>
      obtain ⟨found, ho⟩ := Context.offer_of_steady hf (h.steady x hx)
      rw [ho]
      refine ⟨rfl, rfl, fun y found' hy => ?_, fun y hy => (h.steady y hy).drainedAt x⟩
      by_cases hyx : y = x
      · exact hyx ▸ hf
      · refine h.sound y found' ?_
        have hne : (y == x) = false := beq_eq_false_iff_ne.2 hyx
        simpa only [GrantIndex.remembering, List.lookup_cons, hne] using hy

theorem Unharmed.check_ends (h : Unharmed c X i t) (hc : c.mapping?.isSome)
    (hl : ∀ x, l.scope = some x → X x) :
    (l.check i).Ends t (fun r t' => l.fault c = none ∧ Unharmed c X r.2 t')
      fun e _ => l.fault c = some e := by
  rw [Leaf.check, Leaf.fault]
  rcases hx : l.scope with _ | x
  · exact .pure ⟨rfl, h⟩
  rcases l.permission with _ | q
  · exact .pure ⟨rfl, h⟩
  exact .bind (h.grants_ends hc (hl x hx)) fun _ _ h => .pure h

end

/-- The leaf names a permission of the scope, under which is something that cannot be read. -/
structure Leaf.Meets (c : Value) (l : Leaf) (x : String) (v : Value) : Prop where
  scope : l.scope = some x
  permission : l.permission.isSome
  defective : Context.Defective c x v

theorem Leaf.fault_eq_some_iff {c : Value} {l : Leaf} {e : Failure} :
    l.fault c = some e ↔
      ∃ x v, l.Meets c x v ∧ e = .invalidContext (.unreadableGrants x v.kindName) := by
  constructor
  · intro h
    unfold fault at h
    split at h
    · next x q hx hq =>
      obtain ⟨v, hv, rfl⟩ := Context.defective_of_fault h
      exact ⟨x, v, ⟨hx, by rw [hq]; rfl, hv⟩, rfl⟩
    · cases h
  · rintro ⟨x, v, ⟨hx, hq, hv⟩, rfl⟩
    obtain ⟨q, hq⟩ := Option.isSome_iff_exists.1 hq
    rw [fault, hx, hq]
    exact Context.fault_of_defective hv

theorem Leaf.not_meets_of_fault {c : Value} {l : Leaf} (h : l.fault c = none) (x : String)
    (v : Value) : ¬ l.Meets c x v := by
  intro hm
  rw [fault_eq_some_iff.2 ⟨x, v, hm, rfl⟩] at h
  cases h

namespace Predicate

variable {c : Value} {op : Connective} {p : Predicate} {ps : List Predicate}
  {ix : Option GrantIndex} {s : Session}

/-- A plain tree fails on a mapping by the first fault among the leaves that are reached. -/
theorem judge_asked_ends_of_mapping (hp : p.Plain) (hc : c.mapping?.isSome)
    (hs : ∀ x ∈ p.scopes, Context.Steady c s x) :
    (judge c p none).Ends s (fun _ _ => ∀ a ∈ p.asked c none s, a.fault c = none)
      fun e _ => FailsLast (Atom.fault c) (p.asked c none s) e := by
  refine (judge_asked_ends (I := Shares c (Unharmed c (· ∈ p.scopes))) (fun a ha ix t hI => ?_)
    (.start (.start hs))).imp (fun _ _ h => h.1) fun _ _ => id
  obtain ⟨l, rfl⟩ := hp a ha
  refine hI.ask_leaf_ends (Q := fun _ => l.fault c = none) (fun i hc hi => ?_) fun hn => ?_
  · exact hi.check_ends hc fun x hx => mem_scopes_of_leaf ha hx
  · rw [hn] at hc
    cases hc

/-! ## On what is no mapping -/

/-- On anything the tree answers this without asking an atom. -/
def Idle (p : Predicate) (b : Bool) : Prop :=
  ∀ c ix s, (judge c p ix).outcome s = (.ok (b, ix), s)

/-- The tree fails on whatever is no mapping. -/
def Refuses (p : Predicate) : Prop :=
  ∀ c : Value, c.mapping?.isSome = false → ∀ s,
    (judge c p none).outcome s = (.error (.invalidContext (.notMapping c.kindName)), s)

/-- A leaf that is to open the index fails on whatever is no mapping. -/
theorem ask_leaf_of_not_mapping (l : Leaf) (hc : c.mapping?.isSome = false) (s : Session) :
    ((Atom.leaf l).ask c none).outcome s =
      (.error (.invalidContext (.notMapping c.kindName)), s) := by
  cases hm : c.mapping? with
  | some m =>
    rw [hm] at hc
    cases hc
  | none => simp [Atom.ask, GrantIndex.orOpen, GrantIndex.ofContext, Context.ensure, hm]

theorem judgeAll_idle_or_refuses (op : Connective)
    (h : ∀ p ∈ ps, (∃ b, p.Idle b) ∨ p.Refuses) :
    (∃ b, (group op ps).Idle b) ∨ (group op ps).Refuses := by
  induction ps with
  | nil => exact .inl ⟨!op.absorbing, fun _ _ _ => rfl⟩
  | cons p ps ih =>
    obtain ⟨hp, hps⟩ := List.forall_mem_cons.1 h
    rcases hp with ⟨b, hb⟩ | hp
    · by_cases hop : b = op.absorbing
      · refine .inl ⟨b, fun c ix s => ?_⟩
        simp only [judge, judgeAll, Run.outcome_bind, hb c ix s, if_pos hop, Run.outcome_pure]
      · -- the child does not decide the group, which goes on as if it were not there
        have hrest : ∀ c ix s, (judge c (group op (p :: ps)) ix).outcome s =
            (judge c (group op ps) ix).outcome s := by
          intro c ix s
          simp only [judge, judgeAll, Run.outcome_bind, hb c ix s, if_neg hop]
        rcases ih hps with ⟨b', hb'⟩ | hr
        · exact .inl ⟨b', fun c ix s => (hrest c ix s).trans (hb' c ix s)⟩
        · exact .inr fun c hc s => (hrest c none s).trans (hr c hc s)
    · refine .inr fun c hc s => ?_
      simp only [judge, judgeAll, Run.outcome_bind, hp c hc s]

/-- A plain tree asks no atom at all, or fails on whatever is no mapping. -/
theorem idle_or_refuses (hp : p.Plain) : (∃ b, p.Idle b) ∨ p.Refuses := by
  induction p with
  | atom a =>
    obtain ⟨l, rfl⟩ := hp a List.mem_cons_self
    exact .inr fun c hc s => ask_leaf_of_not_mapping l hc s
  | group op ps ih =>
    refine judgeAll_idle_or_refuses op fun p hp' => ih p hp' fun a ha => ?_
    exact hp a (mem_atomsAll.2 ⟨p, hp', ha⟩)

/-- On what is no mapping a plain tree fails just when a leaf is reached. -/
theorem judge_asked_ends_of_not_mapping (hp : p.Plain) (hc : c.mapping?.isSome = false) :
    (judge c p none).Ends s (fun _ _ => p.asked c none s = [])
      fun _ _ => p.asked c none s ≠ [] := by
  -- every leaf has the refusal of the context for its fault, and the index is never opened
  let fault : Atom → Option Failure := fun _ => some (.invalidContext (.notMapping c.kindName))
  have hask : ∀ a ∈ p.atoms, ∀ ix t, ix = none → (a.ask c ix).Ends t
      (fun r _ => fault a = none ∧ r.2 = none) fun e _ => fault a = some e := by
    rintro a ha ix t rfl
    obtain ⟨l, rfl⟩ := hp a ha
    unfold Run.Ends
    rw [ask_leaf_of_not_mapping l hc t]
  refine (judge_asked_ends (I := fun ix _ => ix = none) hask rfl).imp (fun _ _ h => ?_)
    fun _ _ h => ?_
  · exact List.eq_nil_iff_forall_not_mem.2 fun a ha => nomatch h.1 a ha
  · obtain ⟨before, a, ha, -⟩ := h
    rw [ha]
    exact List.append_ne_nil_of_right_ne_nil before (List.cons_ne_nil a [])

/-! ## Calls -/

theorem outcome_call (hp : p.Plain) (c : Value) (s : Session) :
    (p.call c).outcome s =
      (((judge c p none).outcome s).1.map fun r => .bool r.1, ((judge c p none).outcome s).2) := by
  rw [hp.call_eq_evaluate, evaluate_eq_judge, Functor.map_map, Run.outcome_map]

/-- Called on a mapping, a plain tree fails by the last leaf that is reached and the first that
meets a defect, or it answers and no leaf that is reached meets one. -/
theorem call_of_mapping (hp : p.Plain) (hc : c.mapping?.isSome)
    (hs : ∀ x ∈ p.scopes, Context.Steady c s x) :
    (∃ before l x v, p.asked c none s = before ++ [.leaf l] ∧ l.Meets c x v ∧
      (∀ l' x' v', .leaf l' ∈ before → ¬ l'.Meets c x' v') ∧
      ((p.call c).outcome s).1 = .error (.invalidContext (.unreadableGrants x v.kindName))) ∨
    (∀ l x v, .leaf l ∈ p.asked c none s → ¬ l.Meets c x v) ∧
      ∃ b, ((p.call c).outcome s).1 = .ok (.bool b) := by
  have hends := judge_asked_ends_of_mapping hp hc hs
  unfold Run.Ends at hends
  rw [outcome_call hp]
  rcases hj : (judge c p none).outcome s with ⟨e | ⟨b, ix⟩, t⟩ <;> rw [hj] at hends
  · obtain ⟨before, a, hasked, hfault, hbefore⟩ := hends
    have ha : a ∈ p.atoms := (asked_sublist p c none s).subset (by rw [hasked]; simp)
    obtain ⟨l, rfl⟩ := hp a ha
    obtain ⟨x, v, hl, rfl⟩ := Leaf.fault_eq_some_iff.1 hfault
    exact .inl ⟨before, l, x, v, hasked, hl,
      fun l' x' v' hl' => Leaf.not_meets_of_fault (hbefore _ hl') x' v', rfl⟩
  · exact .inr ⟨fun l x v hl => Leaf.not_meets_of_fault (hends _ hl) x v, b, rfl⟩

/-- Called on what is no mapping, a plain tree fails just when a leaf is reached, and if none is it
gives the same answer on anything, without a trace. -/
theorem call_of_not_mapping (hp : p.Plain) (hc : c.mapping?.isSome = false) :
    ((∃ e, ((p.call c).outcome s).1 = .error e) ↔ p.asked c none s ≠ []) ∧
    (((p.call c).outcome s).1 = .error (.invalidContext (.notMapping c.kindName)) ∨
      ∃ b, ∀ c' s', (p.call c').outcome s' = (.ok (.bool b), s')) := by
  constructor
  · have hends := judge_asked_ends_of_not_mapping hp (s := s) hc
    unfold Run.Ends at hends
    rw [outcome_call hp]
    rcases hj : (judge c p none).outcome s with ⟨e | ⟨b, ix⟩, t⟩ <;> rw [hj] at hends
    · exact ⟨fun _ => hends, fun _ => ⟨e, rfl⟩⟩
    · exact ⟨nofun, fun h => absurd hends h⟩
  · rcases idle_or_refuses hp with ⟨b, hb⟩ | hr
    · exact .inr ⟨b, fun c' s' => by rw [outcome_call hp, hb c' none s']; rfl⟩
    · exact .inl (by rw [outcome_call hp, hr c hc s]; rfl)

end Predicate

end Clearance
