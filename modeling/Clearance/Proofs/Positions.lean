import Clearance.Proofs.Entries

/-!
# Positions in a tree and in its outline

A place is reached from the root by the numbers of the children on the way, so that a subtree that
is shared stands at several places. `Predicate.node?` is what a tree has at a place, and
`Outline.part?` what an outline has there. The atoms of a tree are those at its places
(`Predicate.mem_atoms_iff_node?`).

An outline has the outline of each node at the place of the node, and has nothing at any other
place but the parts that a predicate of the caller's own kind gives to its own outline
(`Predicate.outline_exact`).
-/

namespace Clearance

/-- What the outline has at the place. -/
def Outline.part? : Outline → List Nat → Option Outline
  | o, [] => some o
  | .group _ parts, i :: place => parts[i]?.bind (·.part? place)
  | .path .., _ :: _ | .named .., _ :: _ => none

namespace Predicate

/-- What the tree has at the place. -/
def node? : Predicate → List Nat → Option Predicate
  | p, [] => some p
  | .group _ children, i :: place => children[i]?.bind (·.node? place)
  | .atom _, _ :: _ => none

variable {a : Atom} {op : Connective} {o : Outline} {p q : Predicate} {ps : List Predicate}
  {i : Nat} {place : List Nat}

theorem node?_group_cons_eq_some_iff : (group op ps).node? (i :: place) = some q ↔
    ∃ p, ps[i]? = some p ∧ p.node? place = some q :=
  Option.bind_eq_some_iff

/-- The atoms of a tree are those at its places. -/
theorem mem_atoms_iff_node? (p : Predicate) :
    a ∈ p.atoms ↔ ∃ place, p.node? place = some (.atom a) := by
  induction p with
  | atom b =>
    rw [atoms, List.mem_singleton]
    constructor
    · rintro rfl
      exact ⟨[], rfl⟩
    · rintro ⟨_ | _, h⟩ <;> cases h
      rfl
  | group op ps ih =>
    rw [atoms, mem_atomsAll]
    constructor
    · rintro ⟨p, hp, ha⟩
      obtain ⟨place, h⟩ := (ih p hp).1 ha
      obtain ⟨i, hi⟩ := List.mem_iff_getElem?.1 hp
      exact ⟨i :: place, node?_group_cons_eq_some_iff.2 ⟨p, hi, h⟩⟩
    · rintro ⟨_ | ⟨i, place⟩, h⟩
      · cases h
      · obtain ⟨p, hi, h⟩ := node?_group_cons_eq_some_iff.1 h
        have hp : p ∈ ps := List.mem_of_getElem? hi
        exact ⟨p, hp, (ih p hp).2 ⟨place, h⟩⟩

theorem shapeAll_eq_map (ps : List Predicate) : shapeAll ps = ps.map shape := by
  induction ps with
  | nil => rfl
  | cons p ps ih => rw [shapeAll, ih, List.map_cons]

/-- The outline of a group has the outlines of the children in order. -/
theorem outline_group (op : Connective) (ps : List Predicate) :
    (group op ps).outline = .group op.operator (ps.map outline) := by
  rw [outline_eq_shape, shape, shapeAll_eq_map]
  congr 1
  exact List.map_congr_left fun p _ => (outline_eq_shape p).symm

theorem part?_outline_group_cons : (group op ps).outline.part? (i :: place) =
    ps[i]?.bind fun p => p.outline.part? place := by
  rw [outline_group, Outline.part?, List.getElem?_map, Option.bind_map]
  rfl

/-- At the place the tree has a node with the outline, or inside the outline that a predicate of the
caller's own kind above the place gives there is this outline. -/
def Outlined (p : Predicate) (place : List Nat) (o : Outline) : Prop :=
  (∃ q, p.node? place = some q ∧ q.outline = o) ∨
    ∃ above i below c, place = above ++ i :: below ∧ p.node? above = some (.atom (.custom c)) ∧
      c.outline.part? (i :: below) = some o

theorem outlined_nil : p.Outlined [] o ↔ p.outline = o := by
  constructor
  · rintro (⟨q, hq, rfl⟩ | ⟨above, i, below, c, h, -, -⟩)
    · cases hq
      rfl
    · simp at h
  · exact fun h => .inl ⟨p, rfl, h⟩

/-- Below a group it is what one of the children has. -/
theorem outlined_group_cons : (group op ps).Outlined (i :: place) o ↔
    ∃ p, ps[i]? = some p ∧ p.Outlined place o := by
  constructor
  · rintro (⟨q, hq, ho⟩ | ⟨_ | ⟨j, above⟩, k, below, c, h, hc, ho⟩)
    · obtain ⟨p, hp, hq⟩ := node?_group_cons_eq_some_iff.1 hq
      exact ⟨p, hp, .inl ⟨q, hq, ho⟩⟩
    · cases hc
    · obtain ⟨rfl, rfl⟩ := List.cons.inj h
      obtain ⟨p, hp, hc⟩ := node?_group_cons_eq_some_iff.1 hc
      exact ⟨p, hp, .inr ⟨above, k, below, c, rfl, hc, ho⟩⟩
  · rintro ⟨p, hp, ⟨q, hq, ho⟩ | ⟨above, k, below, c, rfl, hc, ho⟩⟩
    · exact .inl ⟨q, node?_group_cons_eq_some_iff.2 ⟨p, hp, hq⟩, ho⟩
    · exact .inr ⟨i :: above, k, below, c, rfl, node?_group_cons_eq_some_iff.2 ⟨p, hp, hc⟩, ho⟩

/-- Below an atom there is what it has in its own outline, if it is of the caller's own kind. -/
theorem outlined_atom_cons : (atom a).Outlined (i :: place) o ↔
    a.outline.part? (i :: place) = some o := by
  constructor
  · rintro (⟨q, hq, -⟩ | ⟨_ | ⟨j, above⟩, k, below, c, h, hc, ho⟩)
    · cases hq
    · cases hc
      rwa [h]
    · cases hc
  · intro h
    cases a with
    | custom c => exact .inr ⟨[], i, place, c, rfl, rfl, h⟩
    | leaf _ | routine _ _ | value _ => cases h

theorem part?_outline_iff (p : Predicate) (place : List Nat) (o : Outline) :
    p.outline.part? place = some o ↔ p.Outlined place o := by
  -- down the place
  induction place generalizing p with
  | nil =>
    rw [outlined_nil, Outline.part?, Option.some.injEq]
  | cons i place ih =>
    cases p with
    | atom a => exact outlined_atom_cons.symm
    | group op ps =>
      simp only [part?_outline_group_cons, Option.bind_eq_some_iff, outlined_group_cons, ih]

end Predicate

end Clearance
