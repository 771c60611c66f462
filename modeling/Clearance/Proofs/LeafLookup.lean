import Clearance.Predicate.Basic
import Clearance.Proofs.Reading
import Mathlib.Logic.Basic

/-!
# A leaf and the lookup of its scope

A lookup keeps the grants of a scope in order, as values, and finds a permission among them by
equality; a leaf asks an index for the set of them, where a permission is found as keys are. A
caller may use one beside the other: a leaf answers by what a lookup of its scope in the same
session would have found (`Leaf.outcome_evaluate`), and fails as it would have failed. All that a
leaf does besides looking is to write into the log that the scope is absent (`Lookup.remarks`).

The two ways of finding a permission come to the same where every grant is lawful
(`Value.Lawful`), that is, unless a text of a caller's own type breaks the rules for keys
(`Leaf.evaluate_eq_lookup`, `Leaf.evaluate_unlike_lookup`).
-/

namespace Clearance

/-- The value can be a key, and the texts that are equal to it find it. -/
structure Value.Lawful (v : Value) : Prop where
  fixed : v.changeable? = none
  found : ∀ q, v.equalsText q = true → v.foundAs? = some q

/-- A text is equal to what it finds. -/
theorem Value.equalsText_of_foundAs? {v : Value} {q : String} (h : v.foundAs? = some q) :
    v.equalsText q = true := by
  cases v with
  | peculiar t =>
    obtain ⟨-, hq⟩ := Option.filter_eq_some_iff.1 h
    exact hq
  | _ => exact beq_iff_eq.2 h

theorem Value.Lawful.equalsText_iff {v : Value} (hv : v.Lawful) {q : String} :
    v.equalsText q = true ↔ v.foundAs? = some q :=
  ⟨hv.found q, equalsText_of_foundAs?⟩

/-- Identifiers keep to the rules for keys. -/
theorem Identifier.lawful_toValue (p : Identifier) : p.toValue.Lawful where
  fixed := p.changeable?_toValue
  found q h := by
    cases p with
    | none => cases h
    | some s => exact beq_iff_eq.1 h

namespace Lookup

/-- What is written into the log by asking for the scope, where a lookup finds this. -/
def remarks (x : String) (l : Lookup) : List Event :=
  if l.state = .absent then [.logged (.absentScope x)] else []

theorem isGranted_iff {l : Lookup} : l.isGranted = true ↔ l.state = .granted :=
  beq_iff_eq

theorem isGranted_and_contains (l : Lookup) (q : String) :
    (l.isGranted && l.contains q) = l.contains q := by
  rw [contains, ← Bool.and_assoc, Bool.and_self]

/-- Among lawful grants is what finds one of them. -/
theorem contains_of_lawful {l : Lookup} (h : ∀ v ∈ l.grants, v.Lawful) (q : String) :
    l.contains q = (l.isGranted && (PermissionDomain.ofValues l.grants).contains (some q)) := by
  rw [contains, PermissionDomain.contains_ofValues, Bool.eq_iff_iff, Bool.and_eq_true,
    Bool.and_eq_true, List.any_eq_true, List.any_eq_true]
  refine and_congr_right fun _ => exists_congr fun v => and_congr_right fun hv => ?_
  rw [(h v hv).equalsText_iff, beq_iff_eq]

end Lookup

namespace Leaf

/-- Where the grants can be keys, exactly one polarity holds if they are granted, and none
otherwise. -/
theorem xor_decides_iff {k : Lookup} (h : ∀ v ∈ k.grants, v.changeable? = none) (l l' : Leaf)
    (hl : l.polarity = .has) (hl' : l'.polarity = .lacks) (q : String) :
    Xor (k.granted?.map (l.decides q) = .ok true) (k.granted?.map (l'.decides q) = .ok true) ↔
      k.state = .granted := by
  rw [Lookup.granted?_of_fixed h, ← Lookup.isGranted_iff]
  cases k.isGranted with
  | false => simp [Except.map, decides, Xor]
  | true =>
    simp only [Except.map, decides, hl, hl', Polarity.holds, if_true]
    cases (PermissionDomain.ofValues k.grants).contains (some q) <;> simp [Xor]

/-- The polarities do not both hold, whatever is granted. -/
theorem not_both_decide (k : Lookup) (l l' : Leaf) (hl : l.polarity = .has)
    (hl' : l'.polarity = .lacks) (q : String) :
    ¬ (k.granted?.map (l.decides q) = .ok true ∧ k.granted?.map (l'.decides q) = .ok true) := by
  rintro ⟨hhas, hlacks⟩
  obtain ⟨found, hk, hhas⟩ := map_eq_ok.1 hhas
  rw [hk] at hlacks
  cases found with
  | none => cases hhas
  | some d =>
    have hin : d.contains (some q) = true := by
      simpa [decides, hl, Polarity.holds] using hhas
    simp [Except.map, decides, hl', Polarity.holds, hin] at hlacks

/-- A leaf decides by what is among the grants, if they are lawful. -/
theorem decides_of_lawful {k : Lookup} (h : ∀ v ∈ k.grants, v.Lawful) (l : Leaf) (q : String) :
    k.granted?.map (l.decides q) = .ok (k.isGranted && l.polarity.holds (k.contains q)) := by
  rw [Lookup.granted?_of_fixed fun v hv => (h v hv).fixed, Lookup.contains_of_lawful h]
  cases k.isGranted <;> rfl

end Leaf

namespace Context

variable {c : Value} {s : Session} {x : String} {k : Lookup}

/-- Unless the scope is granted, a look finds no grants. -/
theorem grants_of_stateIn (h : stateIn c s x = .ok k) (hk : k.state ≠ .granted) :
    k.grants = [] := by
  rcases stateIn_cases h with ⟨-, rfl⟩ | ⟨-, rfl⟩ | ⟨v, ps, -, -, -, rfl⟩
  · rfl
  · rfl
  · exact absurd rfl hk

/-- What a lookup finds is what a look finds; on what is no mapping it finds nothing. -/
theorem stateIn_of_lookup (h : ((lookup c x).outcome s).1 = .ok k) : stateIn c s x = .ok k := by
  cases hm : c.mapping? with
  | none =>
    have hfails : ((lookup c x).outcome s).1 =
        .error (.invalidContext (.notMapping c.kindName)) := by
      simp [lookup, ensure, hm]
    cases hfails.symm.trans h
  | some m => rw [← outcome_lookup (by rw [hm]; rfl), h]

end Context

namespace Leaf

/-- On whatever context a leaf answers by the set of what a lookup of its scope finds, or fails as
the lookup fails, and leaves the session as the lookup does but for its remarks. -/
theorem outcome_evaluate (polarity : Polarity) (path : Wording) (x q : String) (c : Value)
    (s : Session) :
    (evaluate ⟨polarity, path, some x, some q⟩ c).outcome s =
      match (Context.lookup c x).outcome s with
      | (.ok k, t) =>
        (k.granted?.map (decides ⟨polarity, path, some x, some q⟩ q), t.emit (k.remarks x))
      | (.error e, t) => (.error e, t) := by
  cases hm : c.mapping? with
  | none => simp [evaluate, GrantIndex.ofContext, Context.lookup, Context.ensure, hm]
  | some m =>
    have hc : c.mapping?.isSome := by rw [hm]; rfl
    have hread : (({ context := c } : GrantIndex).grants x).outcome s = _ :=
      GrantIndex.outcome_read hc
    rw [Context.lookup, Run.outcome_bind, Context.outcome_ensure hc]
    simp only [evaluate, check, Run.outcome_bind, GrantIndex.outcome_ofContext hc, hread,
      Context.outcome_classify hc, Context.offer, Context.readingEvents]
    cases h : Context.stateIn c s x with
    | error e => simp [Except.map, bind, Except.bind, Context.under?_isNone_of_error h]
    | ok k =>
      simp only [bind, Except.bind, Lookup.remarks, Context.under?_isNone_of_stateIn h,
        decide_eq_true_eq, Session.emit_emit]
      cases k.granted? <;> rfl

end Leaf

end Clearance
