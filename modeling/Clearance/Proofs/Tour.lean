import Clearance.Proofs.Entries
import Clearance.Proofs.Places

/-!
# Going through all groups of a tree

For its scopes and for its outline a tree is gone through group by group: a group that is opened has
all of its children met in order, and those of them that are groups wait to be opened, the last one
first. `Predicate.tour` are the steps of this, with the places where they are taken.

The nodes that are met are those that `Predicate.visits` gives (`Predicate.visits_eq`), and
`Predicate.fill` lists each of them in the entry of the group around it and does nothing besides
(`Predicate.fill_eq`). Every place other than the root is met once and every place of a group is
opened once, in whatever order (`Predicate.goneThrough_tour`).
-/

namespace Clearance

open Outline

/-- A step of going through the groups of a tree. -/
inductive TourStep where
  /-- The group at the place, whose entry has the number `id`, is gone through from now on. -/
  | opened (place : List Nat) (id : Nat)
  /-- The node at the place is met as a child of the group that was opened last. -/
  | met (place : List Nat) (node : Predicate)

namespace TourStep

/-- The place of the group that is opened, if one is. -/
def opened? : TourStep → Option (List Nat)
  | .opened place _ => some place
  | .met .. => none

/-- The place that is met, if one is, with the node there. -/
def met? : TourStep → Option (List Nat × Predicate)
  | .opened .. => none
  | .met place node => some (place, node)

/-- What a step does to the entries of an outline, with the number of the entry under way. -/
def list : Nat × Array Entry → TourStep → Nat × Array Entry
  | (_, entries), .opened _ id => (id, entries)
  | (id, entries), .met _ (.atom a) => (id, append entries id (.outline a.outline))
  | (id, entries), .met _ (.group op _) =>
    (id, (append entries id (.entry entries.size)).push { operator := op.operator })

end TourStep

namespace Predicate

/-- The nodes with their places, where the first one is the child with the number `i` of the group
at the place. -/
def placed (place : List Nat) (i : Nat) : List Predicate → List (List Nat × Predicate)
  | [] => []
  | p :: ps => (place ++ [i], p) :: placed place (i + 1) ps

@[simp] theorem map_snd_placed (place : List Nat) (i : Nat) (ps : List Predicate) :
    (placed place i ps).map Prod.snd = ps := by
  induction ps generalizing i with
  | nil => rfl
  | cons p ps ih => rw [placed, List.map_cons, ih]

theorem flatMap_nodesAt_placed (place : List Nat) (i : Nat) (ps : List Predicate) :
    ((placed place i ps).flatMap fun e => nodesAt e.1 e.2) = nodesFrom place i ps := by
  induction ps generalizing i with
  | nil => rfl
  | cons p ps ih => rw [placed, List.flatMap_cons, ih, nodesFrom]

/-- The steps of meeting the children that are left and then going through the groups that wait,
where the next group that is met gets an entry with the number `n`. -/
def tourFrom (left : List (List Nat × Predicate)) (waiting : List (List Nat × Waiting)) (n : Nat) :
    List TourStep :=
  match left, waiting with
  | [], [] => []
  | [], (place, w) :: ws => .opened place w.id :: tourFrom (placed place 0 w.children) ws n
  | (place, .atom a) :: ps, ws => .met place (.atom a) :: tourFrom ps ws n
  | (place, .group op qs) :: ps, ws =>
    .met place (.group op qs) :: tourFrom ps ((place, ⟨qs, n⟩) :: ws) (n + 1)
termination_by weightAll (left.map Prod.snd) + waitingWeight (waiting.map Prod.snd)
decreasing_by
  all_goals
    simp only [List.map_cons, List.map_nil, map_snd_placed, waitingWeight, weightAll, weight]
    omega

/-- The steps of going through all groups of a tree with these children at its root. -/
def tour (children : List Predicate) : List TourStep :=
  tourFrom [] [([], ⟨children, 0⟩)] 1

/-! ## The two walks -/

/-- The nodes that are met are those that the walk for the scopes visits. -/
theorem map_met_tourFrom (left : List (List Nat × Predicate)) (waiting : List (List Nat × Waiting))
    (n : Nat) : ((tourFrom left waiting n).filterMap TourStep.met?).map Prod.snd =
      left.map Prod.snd ++ visits
        ((groups (left.map Prod.snd)).reverse ++ waiting.map fun w => w.2.children) := by
  fun_induction tourFrom left waiting n with
  | case1 => simp [groups, visits]
  | case2 n place w ws ih => simp [List.filterMap_cons, TourStep.met?, ih, groups, visits]
  | case3 n place a ps ws ih => simp [TourStep.met?, ih, groups]
  | case4 n place op qs ps ws ih => simp [TourStep.met?, ih, groups]

/-- The walk for the scopes meets what the tour meets. -/
theorem visits_eq (children : List Predicate) :
    visits [children] = ((tour children).filterMap TourStep.met?).map Prod.snd :=
  (map_met_tourFrom [] [([], ⟨children, 0⟩)] 1).symm

/-- Filling lists every node that is met in the entry under way. -/
theorem foldl_list_tourFrom (left : List (List Nat × Predicate))
    (waiting : List (List Nat × Waiting)) (id : Nat) (entries : Array Entry) :
    ((tourFrom left waiting entries.size).foldl TourStep.list (id, entries)).2 =
      fill (left.map Prod.snd) id (waiting.map Prod.snd) entries := by
  -- along the tour, whose next number is that of the entry to come
  generalize hn : entries.size = n
  fun_induction tourFrom left waiting n generalizing id entries with
  | case1 =>
    rw [List.map_nil, List.map_nil, fill]
    rfl
  | case2 n place w ws ih =>
    rw [map_snd_placed] at ih
    rw [List.foldl_cons, List.map_nil, List.map_cons, fill]
    exact ih w.id entries hn
  | case3 n place a ps ws ih =>
    rw [List.foldl_cons, List.map_cons, fill]
    exact ih id _ (size_append.trans hn)
  | case4 n place op qs ps ws ih =>
    subst hn
    rw [List.foldl_cons, List.map_cons, fill]
    exact ih id _ (by simp)

/-- The walk for the outline lists what the tour meets. -/
theorem fill_eq (children : List Predicate) (e : Entry) :
    fill children 0 [] #[e] = ((tour children).foldl TourStep.list (0, #[e])).2 := by
  have h := foldl_list_tourFrom [] [([], ⟨children, 0⟩)] 0 #[e]
  rw [List.map_nil, List.map_cons, fill] at h
  exact h.symm

/-! ## Everything once -/

/-- What is met are the children that are left and all nodes below them and below the groups that
wait. -/
theorem perm_met_tourFrom (left : List (List Nat × Predicate)) (waiting : List (List Nat × Waiting))
    (n : Nat) : ((tourFrom left waiting n).filterMap TourStep.met?).Perm
      ((left.flatMap fun e => nodesAt e.1 e.2) ++
        waiting.flatMap fun w => nodesFrom w.1 0 w.2.children) := by
  fun_induction tourFrom left waiting n with
  | case1 => exact .nil
  | case2 n place w ws ih =>
    rw [flatMap_nodesAt_placed] at ih
    exact ih
  | case3 n place a ps ws ih => exact ih.cons _
  | case4 n place op qs ps ws ih =>
    -- the nodes below the group are met after the children that are left, not before them
    simp only [List.flatMap_cons, nodesAt, List.cons_append, List.append_assoc]
    exact (ih.trans (List.perm_append_comm_assoc _ _ _)).cons _

/-- What is opened are the groups that wait and those that are met. -/
theorem perm_opened_tourFrom (left : List (List Nat × Predicate))
    (waiting : List (List Nat × Waiting)) (n : Nat) :
    ((tourFrom left waiting n).filterMap TourStep.opened?).Perm
      (waiting.map Prod.fst ++ (((tourFrom left waiting n).filterMap TourStep.met?).filter
        fun e => e.2.isGroup).map Prod.fst) := by
  fun_induction tourFrom left waiting n with
  | case1 => exact .nil
  | case2 n place w ws ih => exact ih.cons _
  | case3 n place a ps ws ih => exact ih
  | case4 n place op qs ps ws ih => exact ih.trans List.perm_middle.symm

/-- Each step takes up one of the turns that the groups and the children weigh. -/
theorem length_tourFrom (left : List (List Nat × Predicate)) (waiting : List (List Nat × Waiting))
    (n : Nat) : (tourFrom left waiting n).length =
      weightAll (left.map Prod.snd) + waitingWeight (waiting.map Prod.snd) := by
  fun_induction tourFrom left waiting n with
  | case1 => rfl
  | case2 n place w ws ih =>
    rw [map_snd_placed] at ih
    simp only [List.length_cons, ih, List.map_cons, List.map_nil, waitingWeight, weightAll]
    omega
  | case3 n place a ps ws ih =>
    simp only [List.length_cons, ih, List.map_cons, weightAll, weight]
    omega
  | case4 n place op qs ps ws ih =>
    simp only [List.length_cons, ih, List.map_cons, waitingWeight, weightAll, weight]
    omega

/-- The steps go through the tree once: every place other than the root is met once, with the node
that the tree has there, and every place of a group is opened once. -/
structure GoneThrough (p : Predicate) (steps : List TourStep) : Prop where
  nodup_met : ((steps.filterMap TourStep.met?).map Prod.fst).Nodup
  mem_met : ∀ place q, (place, q) ∈ steps.filterMap TourStep.met? ↔
    place ≠ [] ∧ p.node? place = some q
  nodup_opened : (steps.filterMap TourStep.opened?).Nodup
  mem_opened : ∀ place, place ∈ steps.filterMap TourStep.opened? ↔
    ∃ op children, p.node? place = some (.group op children)

/-- The places that are opened are the root and the places of groups that are met. -/
theorem perm_opened (children : List Predicate) :
    ((tour children).filterMap TourStep.opened?).Perm
      ([] :: (((tour children).filterMap TourStep.met?).filter fun e => e.2.isGroup).map
        Prod.fst) :=
  perm_opened_tourFrom [] [([], ⟨children, 0⟩)] 1

theorem goneThrough_tour (op : Connective) (children : List Predicate) :
    (group op children).GoneThrough (tour children) := by
  have hmet : ((tour children).filterMap TourStep.met?).Perm (nodesFrom [] 0 children) := by
    have h := perm_met_tourFrom [] [([], ⟨children, 0⟩)] 1
    rwa [List.flatMap_singleton] at h
  have hnodup := (hmet.map Prod.fst).nodup_iff.2 (nodup_nodesFrom [] 0 children)
  have hmem : ∀ place q, (place, q) ∈ (tour children).filterMap TourStep.met? ↔
      place ≠ [] ∧ (group op children).node? place = some q :=
    fun place q => hmet.mem_iff.trans mem_nodesFrom_iff_node?
  have hopened := perm_opened children
  refine ⟨hnodup, hmem, hopened.nodup_iff.2 (List.nodup_cons.2 ⟨fun h => ?_, ?_⟩),
    fun place => hopened.mem_iff.trans ?_⟩
  · obtain ⟨⟨_, q⟩, hq, rfl⟩ := List.mem_map.1 h
    exact ((hmem _ _).1 (List.mem_filter.1 hq).1).1 rfl
  · exact hnodup.sublist (List.filter_sublist.map _)
  · constructor
    · intro h
      rcases List.mem_cons.1 h with rfl | h
      · exact ⟨op, children, rfl⟩
      · obtain ⟨⟨_, q⟩, hq, rfl⟩ := List.mem_map.1 h
        obtain ⟨hq, hgroup⟩ := List.mem_filter.1 hq
        cases q with
        | atom a => cases hgroup
        | group op' qs => exact ⟨op', qs, ((hmem _ _).1 hq).2⟩
    · rintro ⟨op', qs, hq⟩
      by_cases hplace : place = []
      · exact List.mem_cons.2 (.inl hplace)
      · refine List.mem_cons_of_mem _ (List.mem_map.2 ⟨(place, .group op' qs), ?_, rfl⟩)
        exact List.mem_filter.2 ⟨(hmem _ _).2 ⟨hplace, hq⟩, rfl⟩

/-! ## Counting -/

section

variable {p : Predicate} {steps : List TourStep}

theorem GoneThrough.length_met (h : p.GoneThrough steps) :
    (steps.filterMap TourStep.met?).length = p.placesBelow.ncard := by
  rw [ncard_eq_length h.nodup_met, List.length_map]
  intro place
  rw [List.mem_map]
  constructor
  · rintro ⟨⟨place, q⟩, hq, rfl⟩
    obtain ⟨hplace, hq⟩ := (h.mem_met place q).1 hq
    exact ⟨hplace, Option.isSome_of_mem hq⟩
  · rintro ⟨hplace, hsome⟩
    obtain ⟨q, hq⟩ := Option.isSome_iff_exists.1 hsome
    exact ⟨(place, q), (h.mem_met place q).2 ⟨hplace, hq⟩, rfl⟩

theorem GoneThrough.length_opened (h : p.GoneThrough steps) :
    (steps.filterMap TourStep.opened?).length = p.groupPlaces.ncard :=
  (ncard_eq_length h.nodup_opened h.mem_opened).symm

/-- In a step either a node is met or a group is opened. -/
theorem length_eq_met_add_opened (steps : List TourStep) : steps.length =
    (steps.filterMap TourStep.met?).length + (steps.filterMap TourStep.opened?).length := by
  induction steps with
  | nil => rfl
  | cons step steps ih =>
    cases step <;> simp only [List.length_cons, List.filterMap_cons, TourStep.met?,
      TourStep.opened?, ih] <;> omega

/-- The nodes below the root, each counted once and each group twice, are the places other than the
root and the places of groups. -/
theorem weightAll_add_one (op : Connective) (children : List Predicate) : weightAll children + 1 =
    (group op children).placesBelow.ncard + (group op children).groupPlaces.ncard := by
  have h := goneThrough_tour op children
  rw [← h.length_met, ← h.length_opened, ← length_eq_met_add_opened, tour, length_tourFrom]
  simp only [List.map_cons, List.map_nil, weightAll, waitingWeight]
  omega

/-- A new entry comes with each group that is met. -/
theorem size_foldl_list (steps : List TourStep) (id : Nat) (entries : Array Entry) :
    (steps.foldl TourStep.list (id, entries)).2.size =
      entries.size + ((steps.filterMap TourStep.met?).filter fun e => e.2.isGroup).length := by
  induction steps generalizing id entries with
  | nil => rfl
  | cons step steps ih =>
    cases step with
    | opened place id' => exact ih id' entries
    | met place node =>
      cases node with
      | atom a =>
        rw [List.foldl_cons, TourStep.list, ih, size_append]
        rfl
      | group op qs =>
        rw [List.foldl_cons, TourStep.list, ih, Array.size_push, size_append, Nat.add_right_comm,
          Nat.add_assoc]
        rfl

/-- There are as many entries as groups. -/
theorem size_fill (op : Connective) (children : List Predicate) (e : Entry) :
    (fill children 0 [] #[e]).size = (group op children).groupPlaces.ncard := by
  rw [fill_eq, size_foldl_list, ← (goneThrough_tour op children).length_opened,
    (perm_opened children).length_eq, List.length_cons, List.length_map, Nat.add_comm]
  rfl

end

end Predicate

end Clearance
