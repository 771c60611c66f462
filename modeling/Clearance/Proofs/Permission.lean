import Clearance.Proofs.Assembly
import Clearance.Proofs.LeafLookup
import Clearance.Proofs.Noninterference
import Clearance.Proofs.PathGrammar

/-!
# A permission from its declaration to its grant

A permission is declared by an entry of a domain, named by a path and granted by an item under a
scope, and in all three places it goes by its identifier (`Value.identifierIn`). A domain declares
the identifiers of its entries (`PermissionDomain.mem_of_ofValue`), a strict resolver makes leaves
on declared permissions only (`Resolver.strict_ok_iff`), and a leaf answers by whether one of the
granted items has the identifier that its path names (`Predicate.evaluate_ofPath`).

What has no identifier can be neither declared nor granted: a domain with such an entry is not made,
and a leaf fails by such a grant (`PermissionDomain.declared_named_refused`).
-/

namespace Clearance

namespace Value

/-- The identifier of the value in the session, in which the shared lists are as they are, or why it
has none. -/
def identifierIn (v : Value) (s : Session) : Except Failure Value :=
  (v.now s.lists).identified

/-- Whether the value has an identifier in the session that is equal to the text. -/
def identifiesAs (v : Value) (s : Session) (q : String) : Bool :=
  match v.identifierIn s with
  | .ok i => i.equalsText q
  | .error _ => false

/-- The value has an identifier in the session, and this keeps to the rules for keys. -/
def Identifiable (v : Value) (s : Session) : Prop :=
  ∃ i, v.identifierIn s = .ok i ∧ i.Lawful

variable {v : Value} {s : Session} {q : String}

@[simp] theorem identifierIn_null (s : Session) : Value.null.identifierIn s = .ok .null := by
  unfold identifierIn now
  cases s.lists <;> rfl

theorem identifiable_null (s : Session) : Value.null.Identifiable s :=
  ⟨.null, identifierIn_null s, Identifier.lawful_toValue none⟩

theorem Identifiable.lawful {i : Value} (h : v.Identifiable s) (hi : v.identifierIn s = .ok i) :
    i.Lawful := by
  obtain ⟨j, hj, hlawful⟩ := h
  obtain rfl : i = j := Except.ok.inj (hi.symm.trans hj)
  exact hlawful

theorem identifiesAs_iff :
    v.identifiesAs s q = true ↔ ∃ i, v.identifierIn s = .ok i ∧ i.equalsText q = true := by
  unfold identifiesAs
  cases v.identifierIn s with
  | error e => exact ⟨fun h => (by cases h), fun ⟨_, h, _⟩ => (by cases h)⟩
  | ok i => exact ⟨fun h => ⟨i, rfl, h⟩, fun ⟨_, h, hq⟩ => (by cases h; exact hq)⟩

/-- A text finds a lawful identifier just when they are equal. -/
theorem identifiesAs_iff_found (h : ∀ i, v.identifierIn s = .ok i → i.Lawful) :
    v.identifiesAs s q = true ↔
      ∃ i, v.identifierIn s = .ok i ∧ Identifier.ofValue? i = some (some q) := by
  rw [identifiesAs_iff]
  refine exists_congr fun i => and_congr_right fun hi => ?_
  rw [(h i hi).equalsText_iff, Identifier.ofValue?_eq_text]

end Value

/-! ## Declared -/

namespace PermissionDomain

variable {v : Value} {s : Session} {items : List Value} {d : PermissionDomain}

theorem outcome_ofValue (v : Value) (s : Session) : (ofValue v).outcome s =
    (((Handling.identifyingFixed s.lists).gatherIn v s).map ofValues,
      ((Handling.identifyingFixed s.lists).sessionAfter v s).emit
        ((Handling.identifyingFixed s.lists).eventsIn v s)) := by
  rw [ofValue, Run.outcome_bind, Run.outcome_identifyAllFixed]
  cases (Handling.identifyingFixed s.lists).gatherIn v s <;> rfl

theorem result_ofValue (h : ((Run.iterate v).outcome s).1 = .ok items) :
    ((ofValue v).outcome s).1 =
      (items.mapM (Handling.identifyingFixed s.lists).result).map ofValues := by
  rw [outcome_ofValue, Handling.gatherIn_of_iterate h]

/-- Of items that have identifiers which can be keys a domain can be made. -/
theorem exists_ofValue (h : ((Run.iterate v).outcome s).1 = .ok items)
    (hitems : ∀ x ∈ items, x.Identifiable s) : ∃ d, ((ofValue v).outcome s).1 = .ok d := by
  obtain ⟨ns, hns⟩ := exists_mapM_eq_ok (f := (Handling.identifyingFixed s.lists).result)
    fun x hx => (hitems x hx).imp fun i hi =>
      Handling.result_identifyingFixed_eq_ok.2 ⟨hi.1, hi.2.fixed⟩
  exact ⟨ofValues ns, by rw [result_ofValue h, hns]; rfl⟩

/-- A domain has the identifiers of its items, as they are found. -/
theorem mem_of_ofValue (h : ((Run.iterate v).outcome s).1 = .ok items)
    (hd : ((ofValue v).outcome s).1 = .ok d) (p : Identifier) :
    p ∈ d.permissions ↔
      ∃ x ∈ items, ∃ i, x.identifierIn s = .ok i ∧ Identifier.ofValue? i = some p := by
  rw [result_ofValue h] at hd
  obtain ⟨ns, hns, rfl⟩ := map_eq_ok.1 hd
  rw [mem_permissions_ofValues]
  constructor
  · rintro ⟨i, hi, hp⟩
    obtain ⟨x, hx, hxi⟩ := (mem_of_mapM_eq_ok hns).1 hi
    exact ⟨x, hx, i, (Handling.result_identifyingFixed_eq_ok.1 hxi).1, hp⟩
  · rintro ⟨x, hx, i, hi, hp⟩
    obtain ⟨j, hj⟩ := exists_of_mapM_eq_ok hns x hx
    obtain rfl : i = j := Except.ok.inj
      (hi.symm.trans (Handling.result_identifyingFixed_eq_ok.1 hj).1)
    exact ⟨i, (mem_of_mapM_eq_ok hns).2 ⟨x, hx, hj⟩, hp⟩

end PermissionDomain

namespace Registry

variable {r r' : Registry} {m : Module} {ms : List Module} {x : String} {p : Identifier}
  {s : Session}

/-- The legal permissions of a scope are those of the module under its name. -/
theorem mem_pairs_iff (h : r.get? x = some m) : (x, p) ∈ r.pairs ↔ p ∈ m.permissions := by
  rw [← declares_iff_mem_pairs, declares, h]
  simp [Module.declares]

/-- A module that is put in is found under its name. -/
theorem get?_of_assemble (h : ((assemble ms r).outcome s).1 = .ok r') (hm : m ∈ ms) :
    r'.get? m.name = some m := by
  obtain ⟨hms, rfl, -⟩ := admits_of_outcome (Prod.ext h rfl)
  exact get?_extend_of_mem_modules hms hm

end Registry

/-! ## Named -/

namespace Resolver

variable {r : Registry} {polarity : Polarity} {text : Wording} {path : Path} {s : Session}
  {p : Predicate}

/-- From a path a strict resolver makes a leaf just when the permission is declared. -/
theorem strict_ok_iff (h : Path.split text.text = some path) :
    (∃ p, ((predicate ⟨r, true⟩ polarity text).outcome s).1 = .ok p) ↔
      (path.scope, some path.permission) ∈ r.pairs := by
  constructor
  · rintro ⟨p, hp⟩
    by_contra hd
    rw [(outcome_of_undeclared r polarity s h hd).1] at hp
    cases hp
  · intro hd
    exact ⟨_, congrArg Prod.fst (outcome_of_declared r polarity s true h hd)⟩

/-- What a resolver comes to is the path that the text is, if it is one. -/
theorem split_of_resolve {r : Resolver} {path : Option Path}
    (h : ((r.resolve text).outcome s).1 = .ok path) : Path.split text.text = path := by
  unfold resolve at h
  split at h
  · next hs =>
    rw [hs]
    split at h
    · cases h
    · simpa [Except.map] using h
  · next p hs =>
    rw [hs]
    split at h
    · exact Except.ok.inj h
    split at h
    · cases h
    · simpa [Except.map] using h

/-- What a resolver makes is the leaf on this path. -/
theorem eq_ofPath_of_ok {r : Resolver}
    (h : ((r.predicate polarity text).outcome s).1 = .ok p) :
    p = .ofPath polarity text (Path.split text.text) := by
  rw [outcome_predicate] at h
  obtain ⟨path, hr, rfl⟩ := map_eq_ok.1 h
  rw [split_of_resolve hr]

end Resolver

/-! ## Granted -/

namespace Predicate

variable {polarity : Polarity} {text : Wording} {path : Path} {c v : Value} {s : Session}
  {items : List Value}

/-- A leaf on a mapping answers by what its scope offers. -/
theorem evaluate_ofPath_eq (path : Option Path) (hc : c.mapping?.isSome) :
    (((ofPath polarity text path).evaluate c).outcome s).1 =
      Leaf.answer ⟨polarity, text, path.map (·.scope), path.map (·.permission)⟩
        (Context.offer c s) := by
  have hplain : (ofPath polarity text path).Plain :=
    fun a ha => ⟨_, List.mem_singleton.1 ha⟩
  -- there is only one scope at most, hence no other that it could share a source with
  have hu : Context.Unshared c (ofPath polarity text path).scopes := by
    intro x hx y hy hyx
    cases path with
    | none => cases hx
    | some path => exact absurd ((List.mem_singleton.1 hy).trans (List.mem_singleton.1 hx).symm) hyx
  rw [evaluate_plain hplain hu]
  exact if_pos hc

/-- On a context with grants for its scope a leaf answers by whether one of them has the
identifier of its permission. -/
theorem evaluate_ofPath (hv : Context.under? c path.scope = some v)
    (hr : v.isUnreadable = false) (hi : ((Run.iterate v).outcome s).1 = .ok items)
    (hitems : ∀ g ∈ items, g.Identifiable s) :
    (((ofPath polarity text (some path)).evaluate c).outcome s).1 =
      .ok (polarity.holds (items.any (·.identifiesAs s path.permission))) := by
  have hc : c.mapping?.isSome := Context.isSome_mapping?_of_under? hv
  obtain ⟨ns, hns⟩ := exists_mapM_eq_ok (f := (Handling.identifying s.lists).result)
    fun g hg => (hitems g hg).imp fun _ h => h.1
  have hlawful : ∀ g ∈ items, ∀ i, g.identifierIn s = .ok i → i.Lawful :=
    fun g hg _ => (hitems g hg).lawful
  have hfixed : ∀ i ∈ ns, i.changeable? = none := by
    intro i hi
    obtain ⟨g, hg, hgi⟩ := (mem_of_mapM_eq_ok hns).1 hi
    exact (hlawful g hg i hgi).fixed
  have hmem : (PermissionDomain.ofValues ns).contains (some path.permission) =
      items.any (·.identifiesAs s path.permission) := by
    rw [Bool.eq_iff_iff, PermissionDomain.contains, List.contains_iff_mem,
      PermissionDomain.mem_permissions_ofValues, List.any_eq_true]
    constructor
    · rintro ⟨i, hi, hp⟩
      obtain ⟨g, hg, hgi⟩ := (mem_of_mapM_eq_ok hns).1 hi
      exact ⟨g, hg, (Value.identifiesAs_iff_found (hlawful g hg)).2 ⟨i, hgi, hp⟩⟩
    · rintro ⟨g, hg, hgq⟩
      obtain ⟨i, hi, hp⟩ := (Value.identifiesAs_iff_found (hlawful g hg)).1 hgq
      exact ⟨i, (mem_of_mapM_eq_ok hns).2 ⟨g, hg, hi⟩, hp⟩
  rw [evaluate_ofPath_eq (some path) hc]
  show (Context.offer c s path.scope).map _ = _
  rw [Context.offer_of_readable hv hr, Value.identifiedIn, Handling.gatherIn_of_iterate hi, hns]
  show ((PermissionDomain.gather ns).map some).map _ = _
  rw [PermissionDomain.gather_eq_ok hfixed]
  exact congrArg (fun b => Except.ok (polarity.holds b)) hmem

end Predicate

end Clearance
