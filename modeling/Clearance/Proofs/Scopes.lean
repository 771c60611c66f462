import Clearance.Proofs.Positions
import Clearance.Proofs.Snapshot

/-!
# The scopes of a tree and the paths in its outline

The groups of a tree are gone through in one order for its scopes and in another one for its
outline, and neither is the order in which they are asked. All the same no position is missed: the
scopes are those of the leaves and of the predicates of the caller's own kind at all places of the
tree. A tree that is built out of leaves and groups has all of its scopes from paths, and its
outline has these paths. So its scopes can be read off the outline (`Predicate.scopes_exact`).
-/

namespace Clearance

namespace Predicate

variable {l : Leaf} {op : Connective} {o : Outline} {p : Predicate} {ps : List Predicate}
  {operator text x : String} {place : List Nat}

theorem nodup_scopes (p : Predicate) : p.scopes.Nodup := by
  cases p <;> exact nodup_distinct _

/-- The scopes of a tree are those that leaves and predicates of the caller's own kind have at
places of the tree. -/
theorem mem_scopes_iff_node? : x ∈ p.scopes ↔ ∃ place,
    (∃ l, p.node? place = some (.atom (.leaf l)) ∧ l.scope = some x) ∨
      ∃ c, p.node? place = some (.atom (.custom c)) ∧ x ∈ c.scopes := by
  simp only [mem_scopes, mem_atoms_iff_node?]
  constructor
  · rintro ⟨a, ⟨place, ha⟩, hx⟩
    cases a with
    | leaf l => exact ⟨place, .inl ⟨l, ha, Option.mem_toList.1 hx⟩⟩
    | custom c => exact ⟨place, .inr ⟨c, ha, hx⟩⟩
    | routine _ _ | value _ => exact absurd hx List.not_mem_nil
  · rintro ⟨place, ⟨l, hl, hx⟩ | ⟨c, hc, hx⟩⟩
    · exact ⟨.leaf l, ⟨place, hl⟩, Option.mem_toList.2 hx⟩
    · exact ⟨.custom c, ⟨place, hc⟩, hx⟩

/-- The outline has a path at a place of a plain tree where the tree has the leaf on the path. -/
theorem Plain.part?_outline_eq_path_iff (hp : p.Plain) :
    p.outline.part? place = some (.path operator text) ↔
      ∃ l, p.node? place = some (.atom (.leaf l)) ∧
        l.polarity.operator = operator ∧ l.path.text = text := by
  have hplain : ∀ {place a}, p.node? place = some (.atom a) → ∃ l, a = .leaf l :=
    fun h => hp _ ((mem_atoms_iff_node? p).2 ⟨_, h⟩)
  rw [part?_outline_iff]
  constructor
  · rintro (⟨_ | _, hq, ho⟩ | ⟨above, i, below, c, -, hc, -⟩)
    · obtain ⟨l, rfl⟩ := hplain hq
      cases ho
      exact ⟨l, hq, rfl, rfl⟩
    · rw [outline_group] at ho
      cases ho
    · obtain ⟨l, hl⟩ := hplain hc
      cases hl
  · rintro ⟨l, hl, rfl, rfl⟩
    exact .inl ⟨_, hl, rfl⟩

/-- A leaf of a tree that is built out of leaves and groups has the scope of its path. -/
theorem Built.scope_eq (h : p.Built) (hl : .leaf l ∈ p.atoms) :
    l.scope = (Path.split l.path.text).map (·.scope) := by
  induction h with
  | leaf h =>
    rw [Resolver.eq_ofPath_of_ok h] at hl
    obtain rfl := Atom.leaf.inj (List.mem_singleton.1 hl)
    rfl
  | group _ ih =>
    obtain ⟨q, hq, hl⟩ := mem_atomsAll.1 hl
    exact ih q hq hl

/-- The scopes of a tree that is built out of leaves and groups are those of the paths in its
outline. -/
theorem Built.mem_scopes_iff_part? (h : p.Built) : x ∈ p.scopes ↔ ∃ place operator text,
    p.outline.part? place = some (.path operator text) ∧
      ∃ path, Path.split text = some path ∧ path.scope = x := by
  have hscope : ∀ {place l}, p.node? place = some (.atom (.leaf l)) →
      (l.scope = some x ↔ ∃ path, Path.split l.path.text = some path ∧ path.scope = x) := by
    intro place l hl
    rw [h.scope_eq ((mem_atoms_iff_node? p).2 ⟨place, hl⟩), Option.map_eq_some_iff]
  simp only [mem_scopes_iff_node?, h.plain.part?_outline_eq_path_iff]
  constructor
  · rintro ⟨place, ⟨l, hl, hx⟩ | ⟨c, hc, -⟩⟩
    · exact ⟨place, _, _, ⟨l, hl, rfl, rfl⟩, (hscope hl).1 hx⟩
    · obtain ⟨l, hl⟩ := h.plain _ ((mem_atoms_iff_node? p).2 ⟨place, hc⟩)
      cases hl
  · rintro ⟨place, _, _, ⟨l, hl, rfl, rfl⟩, hx⟩
    exact ⟨place, .inl ⟨l, hl, (hscope hl).2 hx⟩⟩

/-- The scopes of a tree, none of them twice, are those that leaves and predicates of the caller's
own kind have at the places of the tree; routines and values have none. If the tree is built out of
leaves and groups, with whatever registries and in whatever mode, they are the scopes of those texts
in its outline that are paths. -/
theorem scopes_exact (p : Predicate) :
    p.scopes.Nodup ∧
    (∀ x, x ∈ p.scopes ↔ ∃ place,
      (∃ l, p.node? place = some (.atom (.leaf l)) ∧ l.scope = some x) ∨
        ∃ c, p.node? place = some (.atom (.custom c)) ∧ x ∈ c.scopes) ∧
    (p.Built → ∀ x, x ∈ p.scopes ↔ ∃ place operator text,
      p.outline.part? place = some (.path operator text) ∧
        ∃ path, Path.split text = some path ∧ path.scope = x) :=
  ⟨p.nodup_scopes, fun _ => mem_scopes_iff_node?, fun h _ => h.mem_scopes_iff_part?⟩

/-- A tree from a lenient resolver that knows no scope, with a leaf on a text that is no path. The
scope of the last leaf is the one that its path has before the first separator. -/
theorem scopes_exact_lenient :
    let p : Predicate := .any [.all [.ofPath .lacks "user" none, .all []],
      .ofPath .has "team.READ.OWN" (some ⟨"team", "READ.OWN"⟩)]
    p.Built ∧ "team" ∈ p.scopes ∧ ∃ place operator text,
      p.outline.part? place = some (.path operator text) ∧
        ∃ path, Path.split text = some path ∧ path.scope = "team" := by
  intro p
  have hnothing : (ofPath .lacks "user" none).Built :=
    @Built.leaf ⟨.empty, false⟩ .lacks "user" {} _ rfl
  have hteam : (ofPath .has "team.READ.OWN" (some ⟨"team", "READ.OWN"⟩)).Built :=
    .leaf (Resolver.lenient_of_split .empty .has {} rfl)
  have hp : p.Built := by
    refine .group (List.forall_mem_cons.2 ⟨.group ?_, List.forall_mem_singleton.2 hteam⟩)
    exact List.forall_mem_cons.2 ⟨hnothing, List.forall_mem_singleton.2 (.group nofun)⟩
  obtain ⟨-, hscopes, hpaths⟩ := scopes_exact p
  have hmem : "team" ∈ p.scopes := (hscopes "team").2 ⟨[1], .inl ⟨_, rfl, rfl⟩⟩
  exact ⟨hp, hmem, (hpaths hp "team").1 hmem⟩

end Predicate

end Clearance
