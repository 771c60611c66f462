import Clearance.Proofs.StackMachine
import Clearance.Proofs.Tour

/-!
# The turns of the machine

A machine runs turn by turn (`Machine.run_cons`), and `Machine.course` is a run with the machines at
the start of its turns. Each turn makes the stack smaller by one at least, and by exactly one unless
it leaves a group with children that have not been asked (`Machine.size_turn`). So the size of the
stack at the start bounds the number of turns, and it is reached if no child is left out
(`Machine.length_turns`). This happens in trees of every form (`Predicate.willing`). All along the
stack is the way from the root of the tree to a group in it (`Machine.way_of_mem_turns`).

`Predicate.loops_bounded` puts this together with the walks for the scopes and for the outline, and
counts in places of the tree.
-/

namespace Clearance

/-- The frame is the group at the place, with the first `k` of its children taken. -/
def Frame.At (root : Predicate) (place : List Nat) (k : Nat) (f : Frame) : Prop :=
  ∃ children, root.node? place = some (.group f.op children) ∧ f.rest = children.drop k

/-- The next child of a group is at the place with its number. -/
theorem Frame.At.take {root q : Predicate} {ps : List Predicate} {place : List Nat} {k : Nat}
    {f : Frame} (h : f.At root place k) (hrest : f.rest = q :: ps) :
    Frame.At root place (k + 1) ⟨f.op, ps⟩ ∧ root.node? (place ++ [k]) = some q := by
  obtain ⟨children, hnode, hdrop⟩ := h
  rw [hrest] at hdrop
  refine ⟨⟨children, hnode, ?_⟩, ?_⟩
  · rw [← List.drop_drop, ← hdrop]
    rfl
  · have hq : children[k]? = some q := calc
      children[k]? = (children.drop k)[0]? := by rw [List.getElem?_drop, Nat.add_zero]
      _ = some q := by rw [← hdrop, List.getElem?_cons_zero]
    rw [Predicate.node?_append, hnode, Option.bind_some, Predicate.node?_group_cons_eq_some_iff]
    exact ⟨q, hq, Predicate.node?_nil⟩

namespace Predicate

mutual

/-- The tree with groups at the same places, all of which need all of their children, and with atoms
that always hold. -/
def willing : Predicate → Predicate
  | .atom _ => .atom (.routine (.own "willing") fun _ => return .bool true)
  | .group _ children => .group .allOf (willingAll children)

/-- The trees made willing. -/
def willingAll : List Predicate → List Predicate
  | [] => []
  | p :: ps => willing p :: willingAll ps

end

end Predicate

namespace Machine

open Predicate

variable {c : Value} {f g : Frame} {fs : List Frame} {a : Option Bool} {ix : Option GrantIndex}
  {m m' : Machine} {s t : Session} {root q : Predicate} {ps : List Predicate} {place : List Nat}
  {k : Nat}

/-! ## Turn by turn -/

/-- A turn with the group `f` innermost. -/
def turn (c : Value) (f : Frame) (fs : List Frame) (a : Option Bool) (ix : Option GrantIndex) :
    Run Machine :=
  match move f fs a with
  | .go stack a' => return ⟨stack, a', ix⟩
  | .ask at' stack => do
    let (b, ix) ← at'.ask c ix
    return ⟨stack, some b, ix⟩

/-- A machine with groups under way takes a turn and runs on. -/
theorem run_cons : run c ⟨f :: fs, a, ix⟩ = turn c f fs a ix >>= run c := by
  rw [run]
  split
  · next h => simp [turn, h]
  · next h => simp [turn, h]

/-- The stack after a turn is that of the move. -/
theorem stack_of_turn (h : (turn c f fs a ix).outcome s = (.ok m, t)) :
    m.stack = (move f fs a).stack := by
  unfold turn at h
  split at h
  · next hm =>
    cases h
    rw [hm, Move.stack]
  · next hm =>
    rw [Run.outcome_bind] at h
    split at h <;> cases h
    rw [hm, Move.stack]

/-- How a run goes. -/
structure Course where
  /-- The machines at the start of the turns, in order. -/
  turns : List Machine
  /-- The machine when no group is under way, or the failure of the last turn. -/
  ending : Except Failure Machine
  session : Session

/-- The course with a turn before the others that starts at the machine. -/
def Course.cons (m : Machine) (r : Course) : Course :=
  { r with turns := m :: r.turns }

/-- The course of the run of the machine in the session. -/
def course (c : Value) (m : Machine) (s : Session) : Course :=
  match m with
  | ⟨[], a, ix⟩ => ⟨[], .ok ⟨[], a, ix⟩, s⟩
  | ⟨f :: fs, a, ix⟩ =>
    match _h : (turn c f fs a ix).outcome s with
    | (.ok m', t) => (course c m' t).cons ⟨f :: fs, a, ix⟩
    | (.error e, t) => ⟨[⟨f :: fs, a, ix⟩], .error e, t⟩
termination_by size m.stack
decreasing_by
  all_goals
    rw [stack_of_turn _h]
    exact size_move f fs a

/-- A run comes to what its course ends in. -/
theorem outcome_run (c : Value) (m : Machine) (s : Session) : (run c m).outcome s =
    ((course c m s).ending.map fun m' => m'.answer.getD false, (course c m s).session) := by
  fun_induction course c m s with
  | case1 s a ix => rw [run]; rfl
  | case2 s f fs a ix m' t h ih => rw [run_cons, Run.outcome_bind, h]; exact ih
  | case3 s f fs a ix e t h => rw [run_cons, Run.outcome_bind, h]; rfl

/-! ## The number of turns -/

/-- The children that the innermost group leaves without having asked them, if it is decided. -/
def leaves : Machine → List Predicate
  | ⟨[], _, _⟩ => []
  | ⟨f :: _, a, _⟩ => if a = some f.op.absorbing then f.rest else []

/-- A turn takes one from the size of the stack, and what the children weigh that are left. -/
theorem size_turn (h : (turn c f fs a ix).outcome s = (.ok m, t)) :
    size m.stack + weightAll (leaves ⟨f :: fs, a, ix⟩) + 1 = size (f :: fs) := by
  rw [stack_of_turn h, leaves, move]
  -- a decided group is left with all that it has, otherwise one node is taken or one group left
  split
  · simp only [Move.stack, size, Frame.size]
    omega
  · obtain ⟨op, _ | ⟨_ | ⟨op', qs⟩, ps⟩⟩ := f <;>
      simp only [Move.stack, size, Frame.size, weightAll, weight] <;> omega

/-- There are not more turns than the stack is large. If the run has a result, no group is under way
at the end, and the children that have been left make up the difference. -/
theorem length_turns (c : Value) (m : Machine) (s : Session) :
    (course c m s).turns.length ≤ size m.stack ∧
    ∀ m', (course c m s).ending = .ok m' → m'.stack = [] ∧
      (course c m s).turns.length + ((course c m s).turns.map fun n => weightAll n.leaves).sum =
        size m.stack := by
  fun_induction course c m s with
  | case1 s a ix =>
    refine ⟨Nat.le_refl _, ?_⟩
    rintro _ ⟨⟩
    exact ⟨rfl, rfl⟩
  | case2 s f fs a ix m' t h ih =>
    have hsize := size_turn h
    obtain ⟨hle, hok⟩ := ih
    refine ⟨?_, fun m'' hm => ?_⟩
    · simp only [Course.cons, List.length_cons]
      omega
    · obtain ⟨hstack, hsum⟩ := hok m'' hm
      refine ⟨hstack, ?_⟩
      simp only [Course.cons, List.length_cons, List.map_cons, List.sum_cons]
      omega
  | case3 s f fs a ix e t h =>
    refine ⟨?_, nofun⟩
    simp only [List.length_singleton, size, Frame.size]
    omega

theorem weightAll_eq_zero_iff : weightAll ps = 0 ↔ ps = [] := by
  cases ps with
  | nil => simp [weightAll]
  | cons p ps => cases p <;> simp [weightAll, weight]

/-- All turns are taken just when no child is left out. -/
theorem length_turns_eq_iff (h : (course c m s).ending = .ok m') :
    (course c m s).turns.length = size m.stack ↔ ∀ n ∈ (course c m s).turns, n.leaves = [] := by
  have hsum := ((length_turns c m s).2 m' h).2
  have hzero : ((course c m s).turns.map fun n => weightAll n.leaves).sum = 0 ↔
      ∀ n ∈ (course c m s).turns, n.leaves = [] := by
    simp [List.sum_eq_zero_iff_forall_eq_nat, weightAll_eq_zero_iff]
  rw [← hzero]
  omega

/-! ## The stack -/

/-- The stack is the way from the root to the group at the place: each group under way is the child
that the one around it has taken last. -/
inductive Way (root : Predicate) : List Nat → List Frame → Prop
  | outermost {f : Frame} {k : Nat} (hf : f.At root [] k) : Way root [] [f]
  | inside {f g : Frame} {fs : List Frame} {place : List Nat} {i k : Nat}
      (h : Way root place (g :: fs)) (hg : g.At root place (i + 1))
      (hf : f.At root (place ++ [i]) k) : Way root (place ++ [i]) (f :: g :: fs)

theorem Way.at_head (h : Way root place (f :: fs)) : ∃ k, f.At root place k := by
  cases h with
  | outermost hf | inside _ _ hf => exact ⟨_, hf⟩

/-- There are as many groups under way as the place is long, and the root. -/
theorem Way.length_stack {stack : List Frame} (h : Way root place stack) :
    stack.length = place.length + 1 := by
  induction h with
  | outermost => rfl
  | inside h hg hf ih => rw [List.length_cons, ih, List.length_append, List.length_singleton]

theorem Way.length_le_depth (h : Way root place m.stack) (hm : m.stack ≠ []) :
    m.stack.length ≤ root.depth := by
  rw [h.length_stack]
  obtain ⟨f, fs, hfs⟩ := List.exists_cons_of_ne_nil hm
  rw [hfs] at h
  obtain ⟨k, children, hnode, -⟩ := h.at_head
  exact length_lt_depth hnode

variable {op : Connective}

theorem Way.leave (h : Way root place (f :: fs)) : fs = [] ∨ ∃ above, Way root above fs := by
  cases h with
  | outermost => exact .inl rfl
  | inside h _ _ => exact .inr ⟨_, h⟩

theorem Way.take (h : Way root place (⟨op, q :: ps⟩ :: fs)) : Way root place (⟨op, ps⟩ :: fs) := by
  cases h with
  | outermost hf => exact .outermost (hf.take rfl).1
  | inside h hg hf => exact .inside h hg (hf.take rfl).1

/-- After a move the stack is the way to some group still, if one is under way. -/
theorem Way.move (h : Way root place (f :: fs)) :
    (move f fs a).stack = [] ∨ ∃ place, Way root place (move f fs a).stack := by
  obtain ⟨op, rest⟩ := f
  rw [Machine.move]
  split
  · exact h.leave
  · cases rest with
    | nil => exact h.leave
    | cons p ps =>
      cases p with
      | atom a => exact .inr ⟨place, h.take⟩
      | group op' qs =>
        -- the group around takes the child first, and then the child is innermost
        obtain ⟨k, hk⟩ := h.at_head
        obtain ⟨hg, hq⟩ := hk.take rfl
        exact .inr ⟨place ++ [k], .inside h.take hg ⟨qs, hq, List.drop_zero.symm⟩⟩

/-- At the start of each turn the stack is the way to some group. -/
theorem way_of_mem_turns (c : Value) (m : Machine) (s : Session)
    (h : m.stack = [] ∨ ∃ place, Way root place m.stack) :
    ∀ n ∈ (course c m s).turns, n.stack ≠ [] ∧ ∃ place, Way root place n.stack := by
  fun_induction course c m s with
  | case1 s a ix => exact nofun
  | case2 s f fs a ix m' t ht ih =>
    obtain ⟨place, hway⟩ := h.resolve_left nofun
    refine List.forall_mem_cons.2 ⟨⟨nofun, place, hway⟩, ih ?_⟩
    rw [stack_of_turn ht]
    exact hway.move
  | case3 s f fs a ix e t ht =>
    obtain ⟨place, hway⟩ := h.resolve_left nofun
    exact List.forall_mem_singleton.2 ⟨nofun, place, hway⟩

/-! ## Trees that take all turns -/

/-- All groups under way need all of their children, none has refused, and those that are left are
willing. -/
structure Willing (m : Machine) : Prop where
  frames : ∀ f ∈ m.stack, f.op = .allOf ∧ ∃ ps, f.rest = willingAll ps
  answer : m.answer ≠ some false

/-- A willing machine takes its turn without leaving children out, and stays willing. -/
theorem Willing.outcome_turn (h : Willing ⟨f :: fs, a, ix⟩) (c : Value) (s : Session) :
    leaves ⟨f :: fs, a, ix⟩ = [] ∧ ∃ m, (turn c f fs a ix).outcome s = (.ok m, s) ∧ m.Willing := by
  obtain ⟨op, rest⟩ := f
  obtain ⟨⟨hop, ps, hps⟩, hfs⟩ := List.forall_mem_cons.1 h.frames
  cases hop
  cases hps
  have hanswer : a ≠ some Connective.allOf.absorbing := h.answer
  have hholds : some true ≠ some false := by decide
  have hnone : none ≠ some false := by decide
  refine ⟨if_neg hanswer, ?_⟩
  rw [turn, move, if_neg hanswer]
  cases ps with
  | nil => exact ⟨_, rfl, hfs, hholds⟩
  | cons p ps =>
    have hrest : ∀ g ∈ (⟨.allOf, willingAll ps⟩ : Frame) :: fs,
        g.op = .allOf ∧ ∃ qs, g.rest = willingAll qs :=
      List.forall_mem_cons.2 ⟨⟨rfl, ps, rfl⟩, hfs⟩
    cases p with
    | atom a => exact ⟨_, rfl, hrest, hholds⟩
    | group op' qs => exact ⟨_, rfl, List.forall_mem_cons.2 ⟨⟨rfl, qs, rfl⟩, hrest⟩, hnone⟩

/-- A willing machine has a result, and never leaves children out. -/
theorem Willing.leaves_nothing (c : Value) (m : Machine) (s : Session) (h : m.Willing) :
    (∃ m', (course c m s).ending = .ok m') ∧ ∀ n ∈ (course c m s).turns, n.leaves = [] := by
  fun_induction course c m s with
  | case1 s a ix => exact ⟨⟨_, rfl⟩, nofun⟩
  | case2 s f fs a ix m' t ht ih =>
    obtain ⟨hleaves, m, hm, hwilling⟩ := h.outcome_turn c s
    obtain ⟨rfl, rfl⟩ : m = m' ∧ s = t := by simpa [hm] using ht
    obtain ⟨hresult, hturns⟩ := ih hwilling
    exact ⟨hresult, List.forall_mem_cons.2 ⟨hleaves, hturns⟩⟩
  | case3 s f fs a ix e t ht =>
    obtain ⟨-, m, hm, -⟩ := h.outcome_turn c s
    rw [hm] at ht
    cases ht

end Machine

namespace Predicate

theorem willingAll_eq_map (ps : List Predicate) : willingAll ps = ps.map willing := by
  induction ps with
  | nil => rfl
  | cons p ps ih => rw [willingAll, ih, List.map_cons]

theorem node?_willing (p : Predicate) (place : List Nat) :
    p.willing.node? place = (p.node? place).map willing := by
  induction place generalizing p with
  | nil => rw [node?_nil, node?_nil, Option.map_some]
  | cons i place ih =>
    cases p with
    | atom a => rfl
    | group op ps =>
      rw [willing, node?, node?, willingAll_eq_map, List.getElem?_map, Option.bind_map,
        Option.map_bind]
      congr 1
      funext p
      exact ih p

theorem placesBelow_willing (p : Predicate) : p.willing.placesBelow = p.placesBelow := by
  ext place
  simp [placesBelow, node?_willing]

theorem groupPlaces_willing (p : Predicate) : p.willing.groupPlaces = p.groupPlaces := by
  ext place
  simp only [groupPlaces, Set.mem_ofPred_eq, node?_willing, Option.map_eq_some_iff]
  constructor
  · rintro ⟨op, children, q, hq, hgroup⟩
    cases q with
    | atom a => cases hgroup
    | group op' qs => exact ⟨op', qs, hq⟩
  · rintro ⟨op, children, hq⟩
    exact ⟨.allOf, willingAll children, _, hq, rfl⟩

/-- What the groups of the tree take is the size of the stack at the start. -/
theorem size_start (op : Connective) (children : List Predicate) :
    Machine.size (Machine.start op children).stack =
      (group op children).placesBelow.ncard + (group op children).groupPlaces.ncard := by
  rw [← weightAll_add_one]
  simp only [Machine.start, Machine.size, Frame.size]
  omega

theorem length_turns_willing (children : List Predicate) (c : Value) (s : Session) :
    (Machine.course c (Machine.start .allOf (willingAll children)) s).turns.length =
      Machine.size (Machine.start .allOf (willingAll children)).stack := by
  have h : (Machine.start .allOf (willingAll children)).Willing :=
    ⟨List.forall_mem_singleton.2 ⟨rfl, children, rfl⟩, nofun⟩
  obtain ⟨⟨m, hm⟩, hleaves⟩ := h.leaves_nothing c _ s
  exact (Machine.length_turns_eq_iff hm).2 hleaves

theorem way_start (op : Connective) (children : List Predicate) :
    Machine.Way (group op children) [] (Machine.start op children).stack :=
  .outermost ⟨children, rfl, List.drop_zero.symm⟩

/-- Count the places of a tree with a group at its root: those other than the root, and those of
groups. Calling the tree, on whatever context and in whatever session, comes to what the course of
its machine ends in, and there are not more turns than both numbers together. At the start of each
turn the stack is the way from the root to a group, and so not longer than groups are nested. When
there is a result no group is under way any more, and all the turns have been taken just when no
group has left children out. No lower number would do, since there is a tree with the same places
and the same places of groups that takes all the turns on every context.

The walks for the scopes and for the outline both follow the tour of the tree, which meets every
place other than the root once and opens every place of a group once; so there are as many visits as
other places, and as many entries as groups. -/
theorem loops_bounded (op : Connective) (children : List Predicate) :
    let p := group op children
    let bound := p.placesBelow.ncard + p.groupPlaces.ncard
    (∀ c s,
      let r := Machine.course c (Machine.start op children) s
      (p.call c).outcome s = (r.ending.map fun m => .bool (m.answer.getD false), r.session) ∧
      r.turns.length ≤ bound ∧
      (∀ m ∈ r.turns, m.stack.length ≤ p.depth ∧ ∃ place, Machine.Way p place m.stack) ∧
      ∀ m, r.ending = .ok m → m.stack = [] ∧
        (r.turns.length = bound ↔ ∀ n ∈ r.turns, n.leaves = [])) ∧
    (∃ others : List Predicate,
      (group .allOf others).placesBelow = p.placesBelow ∧
      (group .allOf others).groupPlaces = p.groupPlaces ∧
      ∀ c s, (Machine.course c (Machine.start .allOf others) s).turns.length = bound) ∧
    p.GoneThrough (tour children) ∧
    visits [children] = ((tour children).filterMap TourStep.met?).map Prod.snd ∧
    (visits [children]).length = p.placesBelow.ncard ∧
    ∀ e, fill children 0 [] #[e] = ((tour children).foldl TourStep.list (0, #[e])).2 ∧
      (fill children 0 [] #[e]).size = p.groupPlaces.ncard := by
  intro p bound
  have hsize : Machine.size (Machine.start op children).stack = bound := size_start op children
  have htour : p.GoneThrough (tour children) := goneThrough_tour op children
  refine ⟨fun c s => ⟨?_, ?_, fun m hm => ?_, fun m hm => ?_⟩,
    ⟨willingAll children, p.placesBelow_willing, p.groupPlaces_willing, fun c s => ?_⟩, htour,
    visits_eq children, ?_, fun e => ⟨fill_eq children e, size_fill op children e⟩⟩
  · rw [call_group, Run.outcome_map, Machine.outcome_run]
    cases (Machine.course c (Machine.start op children) s).ending <;> rfl
  · rw [← hsize]
    exact (Machine.length_turns c _ s).1
  · obtain ⟨hstack, place, hway⟩ :=
      Machine.way_of_mem_turns c _ s (.inr ⟨[], way_start op children⟩) m hm
    exact ⟨hway.length_le_depth hstack, place, hway⟩
  · rw [← hsize]
    exact ⟨((Machine.length_turns c _ s).2 m hm).1, Machine.length_turns_eq_iff hm⟩
  · rw [length_turns_willing, size_start]
    exact congrArg₂ (fun x y => x.ncard + y.ncard) p.placesBelow_willing p.groupPlaces_willing
  · rw [visits_eq, List.length_map, htour.length_met]

/-- The root is decided by its first child, so that the turn for the leaf after it is not taken. -/
theorem loops_bounded_left_out :
    let read (polarity : Polarity) : Predicate :=
      .atom (.leaf ⟨polarity, "user.READ", some "user", some "READ"⟩)
    let children := [group .allOf [read .has, group .allOf []], read .lacks]
    let p := group .anyOf children
    let c : Value := .mapping .table [(.text "user", .container .list [.text "READ"])]
    let r := Machine.course c (Machine.start .anyOf children) {}
    (∃ m, r.ending = .ok m ∧ m.stack = []) ∧ r.turns.length = 6 ∧
      r.turns.length ≤ p.placesBelow.ncard + p.groupPlaces.ncard ∧
      r.turns.length ≠ p.placesBelow.ncard + p.groupPlaces.ncard := by
  intro read children p c r
  have hok : r.ending.isOk := by decide +kernel
  have hlength : r.turns.length = 6 := by decide +kernel
  obtain ⟨m, hm⟩ : ∃ m, r.ending = .ok m := by
    cases h : r.ending with
    | error e =>
      rw [h] at hok
      cases hok
    | ok m => exact ⟨m, rfl⟩
  obtain ⟨hcourse, -⟩ := loops_bounded .anyOf children
  obtain ⟨-, hle, -, hend⟩ := hcourse c {}
  obtain ⟨hstack, hiff⟩ := hend m hm
  refine ⟨⟨m, hm, hstack⟩, hlength, hle, fun h => ?_⟩
  have hleft : (r.turns.any fun n => !n.leaves.isEmpty) = true := by decide +kernel
  obtain ⟨n, hn, hleaves⟩ := List.any_eq_true.1 hleft
  rw [hiff.1 h n hn] at hleaves
  cases hleaves

end Predicate

end Clearance
