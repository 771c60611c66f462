import Clearance.Predicate.Scopes

/-!
# The ends of a tree

`Predicate.atoms` lists the atoms of a tree from left to right. A tree is *plain* if all of them
are leaves, so that nothing a caller supplies takes part in its answer (`Predicate.Plain`). What
holds of a group once it holds of its children holds of every tree (`Predicate.induct`).

The scopes of a tree are those of its atoms, none missing and none besides
(`Predicate.mem_scopes`), although the groups are gone through in another order than that in
which they are asked.
-/

namespace Clearance.Predicate

mutual

/-- The atoms of the tree from left to right. -/
def atoms : Predicate → List Atom
  | .atom a => [a]
  | .group _ children => atomsAll children

/-- The atoms of the trees from left to right. -/
def atomsAll : List Predicate → List Atom
  | [] => []
  | p :: ps => atoms p ++ atomsAll ps

end

/-- Whether all atoms of the tree are leaves. -/
def Plain (p : Predicate) : Prop :=
  ∀ a ∈ p.atoms, ∃ l : Leaf, a = .leaf l

/-- Induction on the tree, where a group may rely on all of its children. -/
@[elab_as_elim, induction_eliminator]
theorem induct {motive : Predicate → Prop} (atom : ∀ a, motive (.atom a))
    (group : ∀ op children, (∀ p ∈ children, motive p) → motive (.group op children))
    (p : Predicate) : motive p :=
  Predicate.rec (motive_1 := motive) (motive_2 := fun ps => ∀ p ∈ ps, motive p) atom group
    (fun _ h => absurd h List.not_mem_nil)
    (fun _ _ hp hps _ h => (List.mem_cons.1 h).elim (fun e => e ▸ hp) (hps _)) p

theorem mem_atomsAll {a : Atom} {ps : List Predicate} :
    a ∈ atomsAll ps ↔ ∃ p ∈ ps, a ∈ p.atoms := by
  induction ps with
  | nil => simp [atomsAll]
  | cons p ps ih => simp [atomsAll, ih]

/-! ## Scopes -/

theorem mem_mentionsAll {x : String} {ps : List Predicate} :
    x ∈ mentionsAll ps ↔ ∃ p ∈ ps, x ∈ p.mentions := by
  induction ps with
  | nil => simp [mentionsAll]
  | cons p ps ih => simp [mentionsAll, ih]

theorem mem_mentions {x : String} (p : Predicate) :
    x ∈ p.mentions ↔ ∃ a ∈ p.atoms, x ∈ a.scopes := by
  induction p with
  | atom a => simp [mentions, atoms]
  | group op ps ih =>
    rw [mentions, mem_mentionsAll, atoms]
    constructor
    · rintro ⟨p, hp, hx⟩
      obtain ⟨a, ha, hx⟩ := (ih p hp).1 hx
      exact ⟨a, mem_atomsAll.2 ⟨p, hp, ha⟩, hx⟩
    · rintro ⟨a, ha, hx⟩
      obtain ⟨p, hp, ha⟩ := mem_atomsAll.1 ha
      exact ⟨p, hp, (ih p hp).2 ⟨a, ha, hx⟩⟩

/-- A scope of some children is one that an atom among them has for its own, or one of the
children of a group among them. -/
theorem mem_mentionsAll_iff_groups {x : String} (ps : List Predicate) :
    x ∈ mentionsAll ps ↔ x ∈ ps.flatMap ownScopes ∨ ∃ qs ∈ groups ps, x ∈ mentionsAll qs := by
  induction ps with
  | nil => simp [mentionsAll, groups]
  | cons p ps ih =>
    cases p with
    | atom a => simp [mentionsAll, mentions, groups, ownScopes, ih, or_assoc]
    | group op qs =>
      simp only [mentionsAll, mentions, groups, ownScopes, List.mem_append, List.flatMap_cons,
        List.nil_append, List.mem_cons, exists_eq_or_imp, ih]
      exact or_left_comm

/-- The walk meets the scopes of all groups that are pending. -/
theorem mem_visits {x : String} (pending : List (List Predicate)) :
    x ∈ (visits pending).flatMap ownScopes ↔ ∃ ps ∈ pending, x ∈ mentionsAll ps := by
  fun_induction visits pending with
  | case1 => simp
  | case2 ps pending ih =>
    rw [List.flatMap_append, List.mem_append, ih]
    simp only [List.mem_append, List.mem_reverse, List.mem_cons, or_and_right, exists_or,
      exists_eq_left, mem_mentionsAll_iff_groups ps, or_assoc]

/-- The scopes of a tree are those of its atoms. -/
theorem mem_scopes {x : String} (p : Predicate) :
    x ∈ p.scopes ↔ ∃ a ∈ p.atoms, x ∈ a.scopes := by
  cases p with
  | atom a => simp [scopes, atoms]
  | group op ps => rw [scopes, mem_distinct, mem_visits, ← mem_mentions]; simp [mentions]

/-- The scope of a leaf of a tree is a scope of the tree. -/
theorem mem_scopes_of_leaf {p : Predicate} {l : Leaf} {x : String} (ha : .leaf l ∈ p.atoms)
    (hx : l.scope = some x) : x ∈ p.scopes :=
  p.mem_scopes.2 ⟨_, ha, by simp [Atom.scopes, hx]⟩

end Clearance.Predicate
