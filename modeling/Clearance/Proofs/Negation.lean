import Clearance.Proofs.Duality
import Clearance.Proofs.Replay

/-!
# Negation by the caller

Nothing that is built in negates a predicate, but a caller may supply the code that calls one and
answers the opposite (`Predicate.negation`). By De Morgan's laws a group of such negations under
the dual connective is the negation of the group (`Predicate.evaluate_group_negation`), in what it
answers as in how it fails.

The two sides go different ways. A group of negations has no leaves, so that its children do not
share an index: each of them calls its predicate, which has an index of its own. Without any
assumption it comes to the opposite of asking the predicates one by one
(`Predicate.evaluate_negations`). What remains is that asking them at once comes to the same
(`Predicate.evaluate_group_result`), for which the context has to be one that can be read again and
the code of the caller's a function of the context. Of values in the place of predicates this need
not be assumed: to call one at most compares it with others (`Value.steadyIn_call`).
-/

namespace Clearance

/-! ## Values in the place of predicates -/

namespace Session.SameStock

variable {s t : Session}

theorem refl (s : Session) : s.SameStock s :=
  ⟨rfl, rfl⟩

theorem emit (h : s.SameStock t) (es : List Event) : s.SameStock (t.emit es) :=
  h

end Session.SameStock

namespace Run

variable {α β : Type} {s : Session}

theorem steadyIn_pure (a : α) : (pure a : Run α).SteadyIn s :=
  fun _ h => ⟨rfl, h⟩

theorem steadyIn_throw (e : Failure) : (throw e : Run α).SteadyIn s :=
  fun _ h => ⟨rfl, h⟩

theorem SteadyIn.bind {x : Run α} {f : α → Run β} (h : x.SteadyIn s)
    (hf : ∀ a, (f a).SteadyIn s) : (x >>= f).SteadyIn s := by
  intro t ht
  obtain ⟨hr, ht'⟩ := h t ht
  have hs' := (h s (.refl s)).2
  rw [outcome_bind, outcome_bind]
  rcases hxs : x.outcome s with ⟨e | a, s'⟩ <;> rcases hxt : x.outcome t with ⟨e' | a', t'⟩ <;>
    rw [hxs] at hr hs' <;> rw [hxt] at hr ht' <;> cases hr
  · exact ⟨rfl, ht'⟩
  · obtain ⟨hft, ht'⟩ := hf a t' ht'
    exact ⟨hft.trans (hf a s' hs').1.symm, ht'⟩

theorem steadyIn_record (e : Event) : (record e).SteadyIn s := by
  intro t ht
  rw [outcome_record, outcome_record]
  exact ⟨rfl, ht.emit _⟩

theorem steadyIn_forM_record (es : List Event) : (es.forM record).SteadyIn s := by
  induction es with
  | nil => exact steadyIn_pure _
  | cons e es ih => exact (steadyIn_record e).bind fun _ => ih

theorem steadyIn_refuse (v : Value) (because : String → Failure) :
    (refuse v because : Run α).SteadyIn s := by
  refine .bind (fun t ht => ?_) fun _ => steadyIn_throw _
  rw [outcome_callAll, outcome_callAll]
  exact ⟨rfl, ht.emit _⟩

theorem steadyIn_current (v : Value) : (current v).SteadyIn s := by
  intro t ht
  refine ⟨?_, ht⟩
  show Except.ok (v.now t.lists) = Except.ok (v.now s.lists)
  rw [ht.2]

theorem steadyIn_find (value : α → Value) (v : Value) (xs : List α) :
    (find value v xs).SteadyIn s := by
  induction xs with
  | nil => exact steadyIn_pure _
  | cons x xs ih =>
    refine (steadyIn_forM_record _).bind fun _ => ?_
    split
    · exact steadyIn_pure _
    · exact ih

end Run

namespace Value

variable {s : Session}

theorem steadyIn_memberOf (family : Family) (members : List (String × Value)) (v : Value) :
    (memberOf family members v).SteadyIn s := by
  have hvalue : ∀ v, (memberOf.byValue family members v).SteadyIn s := by
    intro v
    refine .bind ?_ fun m => ?_
    · unfold Roster.find
      split
      · exact Run.steadyIn_pure _
      · exact Run.steadyIn_find _ v members
    · cases m with
      | some m => exact Run.steadyIn_pure _
      | none =>
        dsimp only
        split
        · exact Run.steadyIn_throw _
        · cases family.substitute with
          | some kind => exact Run.steadyIn_throw _
          | none => exact Run.steadyIn_refuse v _
  unfold memberOf
  split
  · split
    · exact Run.steadyIn_pure _
    · exact hvalue _
  · exact hvalue _

/-- To call a value draws nothing and changes nothing. -/
theorem steadyIn_call (v c : Value) : (v.call c).SteadyIn s := by
  refine (Run.steadyIn_current v).bind fun v => ?_
  split
  · exact (Run.steadyIn_current c).bind fun c => steadyIn_memberOf _ _ c
  · exact Run.steadyIn_throw _

end Value

namespace Predicate

variable {c : Value} {s : Session} {p : Predicate} {ps : List Predicate} {op : Connective}

/-- The code of the caller's in the tree is a function of the context, if it answers at all. -/
def PureCode (c : Value) (s : Session) (p : Predicate) : Prop :=
  ∀ a ∈ p.atoms, (∀ l, a ≠ .leaf l) → (∀ v, a ≠ .value v) →
    ((Predicate.atom a).evaluate c).SteadyIn s

theorem PureCode.pureOn (h : p.PureCode c s) : p.PureOn c s := by
  intro a ha hl
  by_cases hv : ∃ v, a = .value v
  · obtain ⟨v, rfl⟩ := hv
    exact (v.steadyIn_call c).bind fun _ => Run.steadyIn_pure _
  · exact h a ha hl fun v h => hv ⟨v, h⟩

/-! ## Groups of negations -/

/-- Code under the label that calls the predicate and answers the opposite. -/
def negation (label : Label) (p : Predicate) : Predicate :=
  .atom (.routine label fun c => do return .bool (!(← p.call c).truthy))

variable {label : Label}

theorem evaluate_negation (p : Predicate) (c : Value) :
    (negation label p).evaluate c = (!·) <$> p.evaluate c := by
  simp [negation, evaluate, call, Atom.call, Value.truthy]

/-- Atoms that are no leaves are asked one by one, since none of them asks the index. -/
theorem judgeAll_atoms (as : List Atom) (h : ∀ a ∈ as, ∀ l, a ≠ .leaf l)
    (ix : Option GrantIndex) :
    judgeAll c op (as.map atom) ix = (·, ix) <$> oneByOne c op (as.map atom) := by
  induction as with
  | nil => simp [judgeAll, oneByOne]
  | cons a as ih =>
    have hrest := ih fun a ha => h a (List.mem_cons_of_mem _ ha)
    rw [List.map_cons, judgeAll, oneByOne, judge, Atom.ask_eq_evaluate (h a List.mem_cons_self)]
    simp only [map_eq_pure_bind, bind_assoc, pure_bind]
    congr 1
    funext b
    by_cases hb : b = op.absorbing
    · simp only [if_pos hb, pure_bind]
    · simp only [if_neg hb, hrest, map_eq_pure_bind]

/-- One by one, negations under the dual connective answer the opposite. -/
theorem oneByOne_negation (ps : List Predicate) :
    oneByOne c op.dual (ps.map (negation label)) = (!·) <$> oneByOne c op ps := by
  induction ps with
  | nil => simp [oneByOne]
  | cons p ps ih =>
    rw [List.map_cons, oneByOne, oneByOne, evaluate_negation, ih]
    simp only [map_eq_pure_bind, bind_assoc, pure_bind, op.absorbing_dual, Bool.not_inj_iff]
    congr 1
    funext b
    by_cases hb : b = op.absorbing
    · simp only [if_pos hb, pure_bind]
    · simp only [if_neg hb]

/-- A group of negations under the dual connective answers the opposite of asking the predicates
one by one, in the same session and with the same session afterwards. -/
theorem evaluate_negations (ps : List Predicate) :
    (group op.dual (ps.map (negation label))).evaluate c = (!·) <$> oneByOne c op ps := by
  have hatoms : ps.map (negation label) = (ps.map fun p => Atom.routine label fun c => do
      return .bool (!(← p.call c).truthy)).map atom := by
    rw [List.map_map]
    rfl
  rw [evaluate_eq_judge, judge, ← oneByOne_negation, hatoms, judgeAll_atoms _ ?_, Functor.map_map]
  · simp
  · intro a ha l
    obtain ⟨p, -, rfl⟩ := List.mem_map.1 ha
    intro hl
    cases hl

theorem evaluate_negations_result (op : Connective) (hc : Context.RepeatableIn c s)
    (hps : ∀ p ∈ ps, p.PureCode c s) :
    (((group op.dual (ps.map (negation label))).evaluate c).outcome s).1 =
      (((group op ps).evaluate c).outcome s).1.map (!·) := by
  rw [evaluate_negations, Run.outcome_map,
    evaluate_group_result op hc fun p hp => (hps p hp).pureOn]

/-- On a context that can be read again, any of the negations of some predicates holds just when
they do not all hold, and all of the negations hold just when none of the predicates does. If one
way fails so does the other, for the same reason. -/
theorem evaluate_group_negation (ps : List Predicate) (label : Label) (c : Value) (s : Session)
    (hc : Context.RepeatableIn c s) (hps : ∀ p ∈ ps, p.PureCode c s) :
    (((group .anyOf (ps.map (negation label))).evaluate c).outcome s).1 =
        (((group .allOf ps).evaluate c).outcome s).1.map (!·) ∧
      (((group .allOf (ps.map (negation label))).evaluate c).outcome s).1 =
        (((group .anyOf ps).evaluate c).outcome s).1.map (!·) :=
  ⟨evaluate_negations_result .allOf hc hps, evaluate_negations_result .anyOf hc hps⟩

/-- A leaf, a group with code of the caller's in it, and a number. The first two hold, so that the
number is called, which it cannot be, by all of the predicates and by any of the negations. -/
theorem evaluate_group_negation_mixed :
    let c : Value := .mapping .table
      [(.text "user", .container .list [.text "READ", .int 1]), (.text "team", .null)]
    let ps : List Predicate :=
      [.atom (.leaf ⟨.has, "user.READ", some "user", some "READ"⟩),
        .group .anyOf [.atom (.leaf ⟨.lacks, "user.1", some "user", some "1"⟩),
          .atom (.routine (.own "open") (Routine.recorded "open" fun _ => return .int 1))],
        .atom (.value (.int 5))]
    Context.RepeatableIn c {} ∧ (∀ p ∈ ps, p.PureCode c {}) ∧
      (((group .anyOf (ps.map (negation (.own "negation")))).evaluate c).outcome {}).1 =
        (((group .allOf ps).evaluate c).outcome {}).1.map (!·) ∧
      (((group .allOf (ps.map (negation (.own "negation")))).evaluate c).outcome {}).1 =
        (((group .anyOf ps).evaluate c).outcome {}).1.map (!·) := by
  intro c ps
  have hc : Context.RepeatableIn c {} := by
    rintro _ _ ⟨⟩ e he
    simp only [List.mem_cons, List.not_mem_nil, or_false] at he
    rcases he with rfl | rfl <;> rfl
  have hps : ∀ p ∈ ps, p.PureCode c {} := by
    intro p hp a ha hl hv
    simp only [ps, List.mem_cons, List.not_mem_nil, or_false] at hp
    rcases hp with rfl | rfl | rfl
    · simp only [atoms, List.mem_singleton] at ha
      exact absurd ha (hl _)
    · simp only [atoms, atomsAll, List.append_nil, List.singleton_append, List.mem_cons,
        List.not_mem_nil, or_false] at ha
      rcases ha with rfl | rfl
      · exact absurd rfl (hl _)
      · exact fun t ht => ⟨rfl, ht⟩
    · simp only [atoms, List.mem_singleton] at ha
      exact absurd ha (hv _)
  exact ⟨hc, hps, evaluate_group_negation ps (.own "negation") c {} hc hps⟩

end Predicate

end Clearance
