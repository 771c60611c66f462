import Clearance.Proofs.Verdict

/-!
# Asking a list of predicates at once or one by one

A group asks its children through one index, which reads a scope once. Asked one by one, each
with an index of its own, the same predicates read the same scopes again and again. Both come to
the same on a context that can be read again (`Value.RepeatableIn`) as long as what callers supply
is a function of the context (`Run.SteadyIn`) : both are the verdict on the group.
-/

namespace Clearance

/-! ## What stays as it is -/

/-- The same sources in the same states, and the same shared lists. -/
def Session.SameStock (s t : Session) : Prop :=
  t.sources = s.sources ∧ t.lists = s.lists

/-- Going through the items of the value twice in a row comes to the same both times. -/
def Value.RepeatableIn (v : Value) (s : Session) : Prop :=
  ((Run.iterate v).outcome ((Run.iterate v).outcome s).2).1 = ((Run.iterate v).outcome s).1

/-- The result depends on the sources and the shared lists only, as they are in the session, and
these stay as they are. -/
def Run.SteadyIn {α : Type} (x : Run α) (s : Session) : Prop :=
  ∀ t, s.SameStock t → (x.outcome t).1 = (x.outcome s).1 ∧ s.SameStock (x.outcome t).2

/-- All values of the context can be gone through again and again. -/
def Context.RepeatableIn (c : Value) (s : Session) : Prop :=
  ∀ kind entries, c.mapping? = some (kind, entries) → ∀ e ∈ entries, e.2.RepeatableIn s

/-- The predicates that callers supply in the tree are functions of the context. -/
def Predicate.PureOn (c : Value) (s : Session) (p : Predicate) : Prop :=
  ∀ a ∈ p.atoms, (∀ l, a ≠ .leaf l) → ((Predicate.atom a).evaluate c).SteadyIn s

section

variable {c : Value} {s t : Session} {v : Value} {x : String}

theorem Session.SameStock.source (h : s.SameStock t) (id : Nat) : t.source id = s.source id := by
  rw [Session.source, Session.source, h.1]

/-- A source that can be gone through again has nothing left to yield. -/
theorem Value.RepeatableIn.spent {id : Nat} (h : v.RepeatableIn s) (hv : v.source? = some id) :
    s.source id = .spent := by
  have hitems : ∀ t, ((Run.iterate v).outcome t).1 = Handling.keeping.gather (t.source id) := by
    intro t
    rw [Run.outcome_iterate, itemsIn, Handling.gatherIn, stockIn_of_source? hv]
    rfl
  rw [RepeatableIn, hitems, hitems, Run.outcome_iterate, Session.source_emit,
    Handling.source_sessionAfter hv, Handling.after_keeping] at h
  obtain ⟨hkept, hfailure⟩ := Handling.gather_eq_ok.1 h.symm
  have hnil : (s.source id).items = [] :=
    Except.ok.inj ((Handling.mapM_keeping _).symm.trans hkept)
  rcases hs : s.source id with ⟨items, failure⟩
  rw [hs] at hnil hfailure
  cases hnil
  cases hfailure
  rfl

/-- Going through what can be gone through again changes nothing but the trace, whatever is done to
the items. -/
theorem Value.RepeatableIn.sessionAfter {β : Type} (h : v.RepeatableIn s) (hst : s.SameStock t)
    (handling : Handling β) : handling.sessionAfter v t = t :=
  Handling.sessionAfter_of_spent fun id hid => (hst.source id).trans (h.spent hid)

/-- Reading a context that can be read again changes nothing but the trace. -/
theorem Context.RepeatableIn.drainedAt (h : RepeatableIn c s) (hst : s.SameStock t) :
    t.drainedAt c x = t := by
  unfold Session.drainedAt
  cases hv : under? c x with
  | none => rfl
  | some v =>
    obtain ⟨kind, entries, hm, e, he, -, rfl⟩ := mem_of_under? hv
    exact (h kind entries hm e he).sessionAfter hst _

theorem Context.RepeatableIn.undisturbed (h : RepeatableIn c s) :
    Undisturbed c (fun _ => True) s.SameStock where
  keeps x _ t ht es := by
    rw [h.drainedAt ht]
    exact ht
  offers x _ t ht y _ _ := by rw [h.drainedAt ht]

/-- With the same sources and lists a context offers the same. -/
theorem Tracks.of_sameStock (h : s.SameStock t) :
    Tracks c s (fun _ => True) { context := c } t :=
  ⟨rfl, fun _ _ => Context.offer_congr h.2 fun id _ => h.source id⟩

theorem GrantIndex.yields_of_sameStock (i : GrantIndex) (h : s.SameStock t) :
    i.yields t x = i.yields s x := by
  unfold GrantIndex.yields
  rw [Context.offer_congr h.2 fun id _ => h.source id]

/-- What a caller supplies is asked without the index. -/
theorem Atom.ask_eq_evaluate {a : Atom} (ha : ∀ l, a ≠ .leaf l) (ix : Option GrantIndex) :
    a.ask c ix = (·, ix) <$> (Predicate.atom a).evaluate c := by
  cases a with
  | leaf l => exact absurd rfl (ha l)
  | custom _ | routine _ _ | value _ =>
    simp [Atom.ask, Predicate.evaluate, Predicate.call, Atom.call]

theorem Atom.answerIn_of_ne_leaf {a : Atom} (ha : ∀ l, a ≠ .leaf l) :
    a.answerIn c s = (((Predicate.atom a).evaluate c).outcome s).1 := by
  cases a with
  | leaf l => exact absurd rfl (ha l)
  | custom _ | routine _ _ | value _ => rfl

/-- On a context that can be read again a tree comes to its verdict, and nothing but the trace
is changed. -/
theorem Predicate.evaluate_ends_of_repeatable {p : Predicate} (hc : Context.RepeatableIn c s)
    (hp : p.PureOn c s) (ht : s.SameStock t) :
    (p.evaluate c).Ends t
      (fun b t' => p.verdict (Atom.answerIn c s) = .ok b ∧ s.SameStock t')
      (fun e _ => p.verdict (Atom.answerIn c s) = .error e) := by
  refine evaluate_ends hc.undisturbed (fun _ _ => trivial) ?_ (.of_sameStock ht) ht
  intro a ha hl ix t hI
  obtain ⟨hT, ht⟩ := hI.holds
  obtain ⟨hr, hs⟩ := hp a ha hl t ht
  rw [Atom.ask_eq_evaluate hl, Atom.answerIn_of_ne_leaf hl, ← hr, Run.Ends, Run.outcome_map]
  rcases ho : ((Predicate.atom a).evaluate c).outcome t with ⟨e | b, t'⟩
  · rfl
  · rw [ho] at hs
    have htt : t.SameStock t' := ⟨hs.1.trans ht.1.symm, hs.2.trans ht.2.symm⟩
    refine ⟨rfl, hI.mapping, ⟨hT.context, fun y hy => ?_⟩, hs⟩
    exact (GrantIndex.yields_of_sameStock _ htt).trans (hT.yields y hy)

/-! ## At once and one by one -/

namespace Predicate

/-- The predicates are asked one by one, each with an index of its own, until one decides. -/
def oneByOne (c : Value) (op : Connective) : List Predicate → Run Bool
  | [] => return !op.absorbing
  | p :: ps => do
    let b ← p.evaluate c
    if b = op.absorbing then return b else oneByOne c op ps

theorem allM_eq_oneByOne (ps : List Predicate) :
    (ps.allM fun p => p.evaluate c) = oneByOne c .allOf ps := by
  induction ps with
  | nil => rfl
  | cons p ps ih =>
    rw [List.allM, oneByOne, ih]
    congr 1
    funext b
    cases b <;> rfl

theorem anyM_eq_oneByOne (ps : List Predicate) :
    (ps.anyM fun p => p.evaluate c) = oneByOne c .anyOf ps := by
  induction ps with
  | nil => rfl
  | cons p ps ih =>
    rw [List.anyM, oneByOne, ih]
    congr 1
    funext b
    cases b <;> rfl

theorem oneByOne_ends {ask : Atom → Except Failure Bool} {op : Connective} {ps : List Predicate}
    (h : ∀ p ∈ ps, ∀ t, s.SameStock t → (p.evaluate c).Ends t
      (fun b t' => p.verdict ask = .ok b ∧ s.SameStock t') (fun e _ => p.verdict ask = .error e))
    (ht : s.SameStock t) :
    (oneByOne c op ps).Ends t (fun b _ => verdictAll ask op ps = .ok b)
      (fun e _ => verdictAll ask op ps = .error e) := by
  induction ps generalizing t with
  | nil => exact .pure rfl
  | cons p ps ih =>
    rw [oneByOne]
    refine .bind ((h p List.mem_cons_self t ht).imp (fun _ _ => id)
      fun e _ => verdictAll_cons_of_error) ?_
    rintro b t' ⟨hb, ht'⟩
    by_cases hop : b = op.absorbing
    · rw [if_pos hop, verdictAll_cons_of_absorbing hb hop]
      exact .pure rfl
    · rw [if_neg hop, verdictAll_cons_of_ne hb hop]
      exact ih (fun q hq => h q (List.mem_cons_of_mem p hq)) ht'

/-- Asked at once or one by one, predicates come to the same on a context that can be read
again. -/
theorem evaluate_group_result (op : Connective) {ps : List Predicate}
    (hc : Context.RepeatableIn c s) (hps : ∀ p ∈ ps, p.PureOn c s) :
    (((group op ps).evaluate c).outcome s).1 = ((oneByOne c op ps).outcome s).1 := by
  have hs : s.SameStock s := ⟨rfl, rfl⟩
  have hgroup : (group op ps).PureOn c s := by
    intro a ha
    obtain ⟨p, hp, ha⟩ := mem_atomsAll.1 ha
    exact hps p hp a ha
  have hone : ((oneByOne c op ps).outcome s).1 = verdictAll (Atom.answerIn c s) op ps :=
    (oneByOne_ends (fun p hp t ht => evaluate_ends_of_repeatable hc (hps p hp) ht) hs).result
  rw [hone]
  exact ((evaluate_ends_of_repeatable hc hgroup hs).imp (fun _ _ h => h.1) fun _ _ => id).result

/-- A group of pure predicates holds on a context that can be read again just when they all do,
or any of them does, asked one by one from left to right; and if one way fails so does the
other, for the same reason. -/
theorem evaluate_group_eq_oneByOne (ps : List Predicate) (c : Value) (s : Session)
    (hc : Context.RepeatableIn c s) (hps : ∀ p ∈ ps, p.PureOn c s) :
    (((group .allOf ps).evaluate c).outcome s).1 =
        ((ps.allM fun p : Predicate => p.evaluate c).outcome s).1 ∧
      (((group .anyOf ps).evaluate c).outcome s).1 =
        ((ps.anyM fun p : Predicate => p.evaluate c).outcome s).1 := by
  rw [allM_eq_oneByOne, anyM_eq_oneByOne]
  exact ⟨evaluate_group_result .allOf hc hps, evaluate_group_result .anyOf hc hps⟩

/-- Two leaves on one scope, one of them inside a group, and a predicate of the caller's. -/
theorem evaluate_group_eq_oneByOne_mixed :
    let c : Value := .mapping .table
      [(.text "user", .container .list [.text "READ", .int 1]), (.text "team", .null)]
    let ps : List Predicate :=
      [.atom (.leaf ⟨.has, "user.READ", some "user", some "READ"⟩),
        .group .anyOf [.atom (.leaf ⟨.lacks, "user.1", some "user", some "1"⟩),
          .atom (.routine (.own "open") (Routine.recorded "open" fun _ => return .int 1))]]
    Context.RepeatableIn c {} ∧ (∀ p ∈ ps, p.PureOn c {}) ∧
      (((group .allOf ps).evaluate c).outcome {}).1 =
        ((ps.allM fun p : Predicate => p.evaluate c).outcome {}).1 := by
  intro c ps
  have hc : Context.RepeatableIn c {} := by
    rintro _ _ ⟨⟩ e he
    simp only [List.mem_cons, List.not_mem_nil, or_false] at he
    rcases he with rfl | rfl <;> rfl
  have hps : ∀ p ∈ ps, p.PureOn c {} := by
    intro p hp a ha hl
    simp only [ps, List.mem_cons, List.not_mem_nil, or_false] at hp
    rcases hp with rfl | rfl
    · simp only [atoms, List.mem_singleton] at ha
      exact absurd ha (hl _)
    · simp only [atoms, atomsAll, List.append_nil, List.singleton_append, List.mem_cons,
        List.not_mem_nil, or_false] at ha
      rcases ha with rfl | rfl
      · exact absurd rfl (hl _)
      · exact fun t ht => ⟨rfl, ht⟩
  exact ⟨hc, hps, (evaluate_group_eq_oneByOne ps c {} hc hps).1⟩

end Predicate

end

end Clearance
