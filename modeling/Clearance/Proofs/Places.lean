import Clearance.Proofs.Positions
import Mathlib.Data.Set.Card

/-!
# The places of a tree

A tree has finitely many places. `Predicate.nodesAt` lists its nodes with their places, each place
once (`Predicate.nodup_nodesFrom`) and with the node that the tree has there
(`Predicate.mem_nodesFrom_iff_node?`). Two sets of places are counted: all of them but the root
(`Predicate.placesBelow`), and those that hold a group (`Predicate.groupPlaces`). A place of a group
is not longer than groups are nested in the tree (`Predicate.length_lt_depth`).
-/

namespace Clearance.Predicate

mutual

/-- The nodes of a tree that stands at the place, each with its own place. -/
def nodesAt (place : List Nat) : Predicate → List (List Nat × Predicate)
  | .atom a => [(place, .atom a)]
  | .group op children => (place, .group op children) :: nodesFrom place 0 children

/-- The nodes of children of the group at the place, the first of which has the number `i`. -/
def nodesFrom (place : List Nat) (i : Nat) : List Predicate → List (List Nat × Predicate)
  | [] => []
  | p :: ps => nodesAt (place ++ [i]) p ++ nodesFrom place (i + 1) ps

end

mutual

/-- How deep groups are nested in the tree. -/
def depth : Predicate → Nat
  | .atom _ => 0
  | .group _ children => depthAll children + 1

/-- How deep groups are nested in the trees at most. -/
def depthAll : List Predicate → Nat
  | [] => 0
  | p :: ps => max (depth p) (depthAll ps)

end

/-- Whether the node is a group. -/
def isGroup : Predicate → Bool
  | .atom _ => false
  | .group .. => true

/-- The places of the tree other than its root. -/
def placesBelow (p : Predicate) : Set (List Nat) :=
  {place | place ≠ [] ∧ (p.node? place).isSome}

/-- The places of the tree that hold a group. -/
def groupPlaces (p : Predicate) : Set (List Nat) :=
  {place | ∃ op children, p.node? place = some (.group op children)}

variable {op : Connective} {p q : Predicate} {ps : List Predicate} {i : Nat}
  {top place : List Nat}

/-! ## Nodes at places -/

theorem node?_append (p : Predicate) (above below : List Nat) :
    p.node? (above ++ below) = (p.node? above).bind (·.node? below) := by
  induction above generalizing p with
  | nil => cases p <;> rfl
  | cons i above ih =>
    cases p with
    | atom a => rfl
    | group op ps =>
      rw [List.cons_append, node?, node?, Option.bind_assoc]
      congr 1
      funext p
      exact ih p

theorem node?_nil : p.node? [] = some p := by
  cases p <;> rfl

/-- The nodes of children are those of each of them. -/
theorem mem_nodesFrom : (place, q) ∈ nodesFrom top i ps ↔
    ∃ j p, ps[j]? = some p ∧ (place, q) ∈ nodesAt (top ++ [i + j]) p := by
  induction ps generalizing i with
  | nil => simp [nodesFrom]
  | cons p ps ih =>
    rw [nodesFrom, List.mem_append, ih]
    constructor
    · rintro (h | ⟨j, p', hp, h⟩)
      · exact ⟨0, p, rfl, h⟩
      · exact ⟨j + 1, p', hp, by rwa [Nat.add_assoc, Nat.add_comm 1] at h⟩
    · rintro ⟨_ | j, p', hp, h⟩
      · cases hp
        exact .inl h
      · exact .inr ⟨j, p', hp, by rwa [Nat.add_assoc, Nat.add_comm 1]⟩

theorem mem_nodesAt : (place, q) ∈ nodesAt top p ↔
    ∃ below, place = top ++ below ∧ p.node? below = some q := by
  induction p generalizing top with
  | atom a =>
    rw [nodesAt, List.mem_singleton]
    constructor
    · rintro ⟨⟩
      exact ⟨[], (List.append_nil _).symm, rfl⟩
    · rintro ⟨_ | _, rfl, h⟩ <;> cases h
      rw [List.append_nil]
  | group op ps ih =>
    rw [nodesAt, List.mem_cons, mem_nodesFrom]
    constructor
    · rintro (h | ⟨j, p, hp, h⟩)
      · cases h
        exact ⟨[], (List.append_nil _).symm, rfl⟩
      · obtain ⟨below, rfl, hq⟩ := (ih p (List.mem_of_getElem? hp)).1 h
        exact ⟨j :: below, by simp, node?_group_cons_eq_some_iff.2 ⟨p, hp, hq⟩⟩
    · rintro ⟨_ | ⟨j, below⟩, rfl, h⟩
      · cases h
        exact .inl (by rw [List.append_nil])
      · obtain ⟨p, hp, hq⟩ := node?_group_cons_eq_some_iff.1 h
        exact .inr ⟨j, p, hp, (ih p (List.mem_of_getElem? hp)).2 ⟨below, by simp, hq⟩⟩

/-- The nodes below a group at the root are those that the tree has at its other places. -/
theorem mem_nodesFrom_iff_node? : (place, q) ∈ nodesFrom [] 0 ps ↔
    place ≠ [] ∧ (group op ps).node? place = some q := by
  rw [mem_nodesFrom]
  cases place with
  | nil => simp [mem_nodesAt]
  | cons i place => simp [mem_nodesAt, node?_group_cons_eq_some_iff]

/-- Nodes below different children have different places. -/
theorem nodup_nodesFrom_of_children (h : ∀ p ∈ ps, ∀ top, ((nodesAt top p).map Prod.fst).Nodup) :
    ((nodesFrom top i ps).map Prod.fst).Nodup := by
  induction ps generalizing i with
  | nil => exact List.nodup_nil
  | cons p ps ih =>
    obtain ⟨hp, hps⟩ := List.forall_mem_cons.1 h
    rw [nodesFrom, List.map_append]
    refine List.Nodup.append (hp _) (ih hps) fun place hplace hplace' => ?_
    -- the two places would go by the same child
    obtain ⟨⟨_, q⟩, hq, rfl⟩ := List.mem_map.1 hplace
    obtain ⟨⟨_, q'⟩, hq', he⟩ := List.mem_map.1 hplace'
    obtain ⟨below, rfl, -⟩ := mem_nodesAt.1 hq
    obtain ⟨j, p', -, hq'⟩ := mem_nodesFrom.1 hq'
    obtain ⟨below', rfl, -⟩ := mem_nodesAt.1 hq'
    simp at he
    omega

theorem nodup_nodesAt (p : Predicate) (top : List Nat) :
    ((nodesAt top p).map Prod.fst).Nodup := by
  induction p generalizing top with
  | atom a => exact List.nodup_singleton _
  | group op ps ih =>
    rw [nodesAt, List.map_cons]
    refine List.nodup_cons.2 ⟨fun h => ?_, nodup_nodesFrom_of_children ih⟩
    obtain ⟨⟨_, q⟩, hq, he⟩ := List.mem_map.1 h
    obtain ⟨j, p', -, hq⟩ := mem_nodesFrom.1 hq
    obtain ⟨below, rfl, -⟩ := mem_nodesAt.1 hq
    simp at he

theorem nodup_nodesFrom (top : List Nat) (i : Nat) (ps : List Predicate) :
    ((nodesFrom top i ps).map Prod.fst).Nodup :=
  nodup_nodesFrom_of_children fun p _ => p.nodup_nodesAt

/-! ## Counting places -/

/-- A set has as many elements as a list that has each of them once. -/
theorem ncard_eq_length {places : Set (List Nat)} {l : List (List Nat)} (hl : l.Nodup)
    (h : ∀ place, place ∈ l ↔ place ∈ places) : places.ncard = l.length := by
  have hset : places = l.toFinset := by
    ext place
    rw [List.coe_toFinset]
    exact (h place).symm
  rw [hset, Set.ncard_coe_finset, List.toFinset_card_of_nodup hl]

theorem depth_le_depthAll (h : p ∈ ps) : p.depth ≤ depthAll ps := by
  induction ps with
  | nil => cases h
  | cons q ps ih =>
    rw [depthAll]
    rcases List.mem_cons.1 h with rfl | h
    · exact Nat.le_max_left _ _
    · exact (ih h).trans (Nat.le_max_right _ _)

/-- The place of a group is not longer than groups are nested. -/
theorem length_lt_depth (h : p.node? place = some (.group op ps)) : place.length < p.depth := by
  induction place generalizing p with
  | nil =>
    rw [node?_nil] at h
    cases h
    exact Nat.succ_pos _
  | cons i place ih =>
    cases p with
    | atom a => cases h
    | group op' qs =>
      obtain ⟨p, hp, h⟩ := node?_group_cons_eq_some_iff.1 h
      rw [List.length_cons, depth]
      exact Nat.succ_lt_succ ((ih h).trans_le (depth_le_depthAll (List.mem_of_getElem? hp)))

end Clearance.Predicate
