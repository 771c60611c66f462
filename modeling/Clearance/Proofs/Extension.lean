import Clearance.Proofs.Addressing

/-!
# What more modules add to a registry

Modules that are put into a registry add their own permissions and nothing else
(`Registry.mem_pairs_assembled`). None of these was legal before, and no two of the modules have one
in common (`Registry.Admits.pairwise_disjoint`), since no two scopes have the same name.

A resolver knows its registry by the legal pairs only, and of these by those that a path can name
(`Resolver.predicate_congr`). So it goes on accepting what it accepted, and it makes no difference
to it whether a module is there whose name no path can have (`Registry.assemble_adds`).
-/

namespace Clearance

namespace Module

/-- The legal pairs of the scope with the name of the module. -/
def pairs (m : Module) : List (String × Identifier) :=
  m.permissions.map fun p => (m.name, p)

theorem mem_pairs {m : Module} {x : String} {p : Identifier} :
    (x, p) ∈ m.pairs ↔ m.name = x ∧ p ∈ m.permissions := by
  simp only [pairs, List.mem_map, Prod.mk.injEq]
  constructor
  · rintro ⟨p, hp, rfl, rfl⟩
    exact ⟨rfl, hp⟩
  · rintro ⟨rfl, hp⟩
    exact ⟨p, hp, rfl, rfl⟩

end Module

namespace Registry

variable {r : Registry} {ms ms' : List Module} {x : String} {p : Identifier}

/-- A scope with a legal permission is one of the registry. -/
theorem mem_scopes_of_mem_pairs (h : (x, p) ∈ r.pairs) : x ∈ r.scopes := by
  obtain ⟨e, he, hp⟩ := List.mem_flatMap.1 h
  obtain ⟨q, -, hq⟩ := List.mem_map.1 hp
  exact List.mem_map.2 ⟨e, he, congrArg Prod.fst hq⟩

/-- Modules that are admitted together are admitted without some of them. -/
theorem Admits.sublist (h : r.Admits ms) (hs : ms'.Sublist ms) : r.Admits ms' where
  nodup := h.nodup.sublist (hs.map _)
  fresh m hm := h.fresh m (hs.subset hm)

/-- No permission of the modules was legal before, and none is in two of them. -/
theorem Admits.pairwise_disjoint (h : r.Admits ms) :
    (r.pairs :: ms.map Module.pairs).Pairwise List.Disjoint := by
  refine List.pairwise_cons.2 ⟨fun ps hps => ?_, ?_⟩
  · obtain ⟨m, hm, rfl⟩ := List.mem_map.1 hps
    rintro ⟨x, p⟩ hr hp
    obtain ⟨rfl, -⟩ := Module.mem_pairs.1 hp
    exact h.fresh m hm (mem_scopes_of_mem_pairs hr)
  · refine List.pairwise_map.2 ((List.pairwise_map.1 h.nodup).imp fun hne => ?_)
    rintro ⟨x, p⟩ hp hp'
    obtain ⟨rfl, -⟩ := Module.mem_pairs.1 hp
    exact hne (Module.mem_pairs.1 hp').1.symm

/-- What is legal once modules have been put in was legal before or is in one of them. -/
theorem mem_pairs_assembled (h : r.Admits ms) :
    (x, p) ∈ (r.extend ms h).pairs ↔ (x, p) ∈ r.pairs ∨ ∃ m ∈ ms, (x, p) ∈ m.pairs := by
  simp only [mem_pairs_extend, Module.mem_pairs]

end Registry

namespace Resolver

variable {r r' : Registry} {text : Wording}

/-- Registries in which the same permissions that the text may name are legal are the same to a
resolver. -/
theorem predicate_congr
    (h : ∀ path, Path.split text.text = some path →
      ((path.scope, some path.permission) ∈ r.pairs ↔
        (path.scope, some path.permission) ∈ r'.pairs))
    (strict : Bool) (polarity : Polarity) :
    predicate ⟨r, strict⟩ polarity text = predicate ⟨r', strict⟩ polarity text := by
  have hresolve : resolve ⟨r, strict⟩ text = resolve ⟨r', strict⟩ text := by
    unfold resolve
    cases hs : Path.split text.text with
    | none => rfl
    | some path =>
      have hd : r.declares path.scope path.permission = r'.declares path.scope path.permission := by
        rw [Bool.eq_iff_iff, Registry.declares_iff_mem_pairs, Registry.declares_iff_mem_pairs]
        exact h path hs
      simp only [hd]
  rw [predicate_eq_map, predicate_eq_map, hresolve]

/-- A strict resolver accepts a text just when the permission that it names is legal. -/
theorem strict_ok_iff_split (r : Registry) (polarity : Polarity) (text : Wording) (s : Session) :
    (∃ p, ((predicate ⟨r, true⟩ polarity text).outcome s).1 = .ok p) ↔
      ∃ path, Path.split text.text = some path ∧
        (path.scope, some path.permission) ∈ r.pairs := by
  rw [strict_ok_iff_written]
  refine exists_congr fun path => ?_
  rw [← and_assoc]
  refine and_congr_left fun _ => ?_
  exact ⟨fun ⟨hn, hw⟩ => hw ▸ Path.split_written hn, Path.written_of_split⟩

end Resolver

namespace Registry

variable {r : Registry} {m : Module} {ms before after : List Module} {polarity : Polarity}
  {text : Wording} {s t : Session} {p : Predicate}

/-- A strict resolver goes on making the same leaves. -/
theorem predicate_extend_of_ok (h : r.Admits ms)
    (hp : (Resolver.predicate ⟨r, true⟩ polarity text).outcome s = (.ok p, t)) :
    (Resolver.predicate ⟨r.extend ms h, true⟩ polarity text).outcome s = (.ok p, t) := by
  obtain ⟨path, hsplit, hd⟩ :=
    (Resolver.strict_ok_iff_split r polarity text s).1 ⟨p, congrArg Prod.fst hp⟩
  have hd' : (path.scope, some path.permission) ∈ (r.extend ms h).pairs :=
    (mem_pairs_assembled h).2 (.inl hd)
  rw [Resolver.outcome_of_declared _ polarity s true hsplit hd']
  rwa [Resolver.outcome_of_declared _ polarity s true hsplit hd] at hp

/-- What a strict resolver accepts only now names a permission of one of the modules. -/
theorem newly_accepted_iff (h : r.Admits ms) (polarity : Polarity) (text : Wording) (s : Session) :
    (∃ p, ((Resolver.predicate ⟨r.extend ms h, true⟩ polarity text).outcome s).1 = .ok p) ∧
        (¬ ∃ p, ((Resolver.predicate ⟨r, true⟩ polarity text).outcome s).1 = .ok p) ↔
      ∃ path, Path.split text.text = some path ∧
        ∃ m ∈ ms, (path.scope, some path.permission) ∈ m.pairs := by
  rw [Resolver.strict_ok_iff_split, Resolver.strict_ok_iff_split]
  constructor
  · rintro ⟨⟨path, hsplit, hd'⟩, hnew⟩
    rcases (mem_pairs_assembled h).1 hd' with hd | hm
    · exact absurd ⟨path, hsplit, hd⟩ hnew
    · exact ⟨path, hsplit, hm⟩
  · rintro ⟨path, hsplit, m, hm, hp⟩
    refine ⟨⟨path, hsplit, (mem_pairs_assembled h).2 (.inr ⟨m, hm, hp⟩)⟩, ?_⟩
    rintro ⟨path', hsplit', hd⟩
    obtain rfl : path = path' := Option.some.inj (hsplit.symm.trans hsplit')
    exact (List.pairwise_cons.1 h.pairwise_disjoint).1 _ (List.mem_map_of_mem hm) hd hp

/-- It makes no difference to a resolver whether a module is there whose name no path can have. -/
theorem predicate_extend_of_not_isPart (h : r.Admits (before ++ m :: after))
    (h₀ : r.Admits (before ++ after)) (hm : ¬ Path.IsPart m.name) (strict : Bool)
    (polarity : Polarity) (text : Wording) :
    Resolver.predicate ⟨r.extend _ h, strict⟩ polarity text =
      Resolver.predicate ⟨r.extend _ h₀, strict⟩ polarity text := by
  refine Resolver.predicate_congr (fun path hsplit => ?_) strict polarity
  have hpath := (Path.written_of_split hsplit).1
  have hother : (path.scope, some path.permission) ∉ m.pairs := by
    intro hp
    have hscope : m.name = path.scope := (Module.mem_pairs.1 hp).1
    exact hm (hscope ▸ ⟨hpath.scope_ne, hpath.separator_notMem⟩)
  simp [mem_pairs_assembled, hother, or_and_right, exists_or]

/-- A permission is legal in a scope just when the two are a legal pair. Once modules have been put
into a registry, the legal pairs are those of the registry and of each of the modules, and no two of
these have one in common. A strict resolver makes the same leaves from the texts that it accepted
before, and of the others it accepts just those that name a permission of one of the modules. A
module whose name is empty or has a separator in it makes no difference to what a resolver comes to,
strict or lenient, from whatever text. -/
theorem assemble_adds (r : Registry) (ms : List Module) (s : Session) :
    (∀ x p, r.declares x p = true ↔ (x, p) ∈ r.pairs) ∧
    ∀ r' t, (assemble ms r).outcome s = (.ok r', t) →
      (∀ e, e ∈ r'.pairs ↔ e ∈ r.pairs ∨ ∃ m ∈ ms, e ∈ m.pairs) ∧
      (r.pairs :: ms.map Module.pairs).Pairwise List.Disjoint ∧
      (∀ polarity text u p v,
        (Resolver.predicate ⟨r, true⟩ polarity text).outcome u = (.ok p, v) →
        (Resolver.predicate ⟨r', true⟩ polarity text).outcome u = (.ok p, v)) ∧
      (∀ polarity (text : Wording) u,
        (∃ p, ((Resolver.predicate ⟨r', true⟩ polarity text).outcome u).1 = .ok p) ∧
            (¬ ∃ p, ((Resolver.predicate ⟨r, true⟩ polarity text).outcome u).1 = .ok p) ↔
          ∃ path, Path.split text.text = some path ∧
            ∃ m ∈ ms, (path.scope, some path.permission) ∈ m.pairs) ∧
      ∀ before m after, ms = before ++ m :: after →
        m.name = "" ∨ Path.separator ∈ m.name.toList →
        ∃ r₀, ((assemble (before ++ after) r).outcome s).1 = .ok r₀ ∧
          ∀ strict polarity text,
            Resolver.predicate ⟨r', strict⟩ polarity text =
              Resolver.predicate ⟨r₀, strict⟩ polarity text := by
  refine ⟨fun x p => declares_iff_mem_pairs, fun r' t h => ?_⟩
  obtain ⟨hms, rfl, -⟩ := admits_of_outcome h
  refine ⟨fun ⟨x, p⟩ => mem_pairs_assembled hms, hms.pairwise_disjoint,
    fun polarity text u p v => predicate_extend_of_ok hms, newly_accepted_iff hms, ?_⟩
  rintro before m after rfl hname
  have hsub : (before ++ after).Sublist (before ++ m :: after) :=
    (List.sublist_cons_self m after).append_left before
  have hpart : ¬ Path.IsPart m.name := fun h => hname.elim h.1 h.2
  exact ⟨_, congrArg Prod.fst (outcome_assemble (hms.sublist hsub)), fun strict polarity text =>
    predicate_extend_of_not_isPart hms (hms.sublist hsub) hpart strict polarity text⟩

/-- The registry has a module under another name than its own, and the first one that is put in has
a name with a separator in it. -/
theorem assemble_adds_separated :
    let r : Registry := ⟨[("lab", .ofIdentifiers "team" [some "READ", none])], by simp⟩
    let user : Module := .ofIdentifiers "user" [some "READ"]
    let separated : Module := .ofIdentifiers "lab.user" [some "READ"]
    ∃ r' r₀ t, (assemble [separated, user] r).outcome {} = (.ok r', t) ∧
      ((assemble [user] r).outcome {}).1 = .ok r₀ ∧
      (∃ p, ((Resolver.has ⟨r', true⟩ "user.READ").outcome {}).1 = .ok p) ∧
      (¬ ∃ p, ((Resolver.has ⟨r, true⟩ "user.READ").outcome {}).1 = .ok p) ∧
      Resolver.lacks ⟨r', false⟩ "lab.user.READ" = Resolver.lacks ⟨r₀, false⟩ "lab.user.READ" := by
  intro r user separated
  have hms : r.Admits [separated, user] := ⟨by decide, by decide⟩
  have hr' := outcome_assemble (s := {}) hms
  obtain ⟨-, -, -, hnew, hsame⟩ := (assemble_adds r [separated, user] {}).2 _ _ hr'
  obtain ⟨r₀, hr₀, hsame⟩ := hsame [] separated [user] rfl (.inr (by decide))
  obtain ⟨haccepted, hrefused⟩ :=
    (hnew .has "user.READ" {}).2 ⟨⟨"user", "READ"⟩, by decide, user, by simp, by decide⟩
  exact ⟨_, r₀, _, hr', hr₀, haccepted, hrefused, hsame false .lacks "lab.user.READ"⟩

end Registry

end Clearance
