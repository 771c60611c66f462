import Clearance.Proofs.Agreement
import Mathlib.Data.Finset.Dedup
import Mathlib.Data.List.Nodup

/-!
# The order of modules and permissions does not count

Modules and registries that hold nothing but identifiers (`Module.Proper`, `Registry.Proper`) are
the same just when their contents are: of a module its name and the set of its permissions
(`Module.content`), of a registry the set of its names, each with the content of the module under
it (`Registry.content`). What agrees has the same fingerprint (`Registry.fingerprint_of_agrees`),
since whatever agreeing modules have in common registries that agree have in common up to the order
of the entries (`Registry.perm_of_agrees`).

Registries that are put together from the same modules in different orders have the same entries in
different orders, so that no question to them, but for the order of the scopes, tells them apart
(`Registry.assemble_order_free`).
-/

namespace Clearance

namespace Module

/-- The module holds nothing but identifiers. -/
def Proper (m : Module) : Prop :=
  m.foreign = []

/-- What counts of the module: its name and the set of its permissions. -/
def content (m : Module) : String × Finset Identifier :=
  (m.name, m.permissions.toFinset)

variable {m m' : Module}

/-- Modules that agree have the same content. -/
theorem content_of_agrees (h : m.agrees m') : m.content = m'.content := by
  obtain ⟨hname, hpermissions, -, -⟩ := agrees_iff.1 h
  exact Prod.ext hname (Finset.ext fun p => by simp [content, hpermissions p])

/-- Modules of identifiers agree just when they have the same name and the same permissions. -/
theorem agrees_iff_content (h : m.Proper) (h' : m'.Proper) :
    m.agrees m' ↔ m.content = m'.content := by
  refine ⟨content_of_agrees, fun hc => ?_⟩
  obtain ⟨hname, hset⟩ := Prod.mk.inj hc
  exact agrees_of_permissions h h' hname fun p => by simpa using Finset.ext_iff.1 hset p

theorem Proper.agrees_self (h : m.Proper) : m.agrees m :=
  (agrees_iff_content h h).2 rfl

/-- Modules that agree have the same fingerprint. -/
theorem fingerprint_of_agrees (h : m.agrees m') : m.fingerprint = m'.fingerprint := by
  obtain ⟨hname, hpermissions, hforeign, -⟩ := agrees_iff.1 h
  have hperm : m.permissions.Perm m'.permissions :=
    (List.perm_ext_iff_of_nodup m.nodup m'.nodup).2 hpermissions
  have hsum : (m.permissions.map hash).foldr (· + ·) 0 =
      (m'.permissions.map hash).foldr (· + ·) 0 := (hperm.map hash).foldr_eq 0
  rw [fingerprint, fingerprint, hname, hforeign, hsum]

end Module

namespace Registry

/-- The modules hold nothing but identifiers. -/
def Proper (r : Registry) : Prop :=
  ∀ e ∈ r.entries, e.2.Proper

/-- The set of the names, each with what counts of the module under it. -/
def content (r : Registry) : Finset (String × String × Finset Identifier) :=
  (r.entries.map fun e => (e.1, e.2.content)).toFinset

variable {r r' : Registry} {ms ms' : List Module}

/-- No entry comes twice, whatever is made of the modules. -/
theorem nodup_entries {β : Type} (f : Module → β) (r : Registry) :
    (r.entries.map fun e => (e.1, f e.2)).Nodup := by
  refine .of_map Prod.fst ?_
  rw [List.map_map]
  exact r.nodup

/-! ## Registries that agree -/

/-- Whatever agreeing modules have in common, the entries of registries that agree have it under the
same names, but maybe in another order. -/
theorem perm_of_agrees {β : Type} {f : Module → β} (hf : ∀ m m', m.agrees m' → f m = f m')
    (h : r.agrees r') :
    (r.entries.map fun e => (e.1, f e.2)).Perm (r'.entries.map fun e => (e.1, f e.2)) := by
  obtain ⟨hlength, hentries⟩ := agrees_iff.1 h
  have hsub : (r.entries.map fun e => (e.1, f e.2)) ⊆ r'.entries.map fun e => (e.1, f e.2) := by
    intro y hy
    obtain ⟨e, he, rfl⟩ := List.mem_map.1 hy
    obtain ⟨m, hm, hem⟩ := hentries e he
    exact List.mem_map.2 ⟨(e.1, m), hm, by rw [hf _ _ hem]⟩
  refine (List.subperm_of_subset (nodup_entries f r) hsub).perm_of_length_le ?_
  rw [List.length_map, List.length_map, hlength]

/-- Registries that agree have the same fingerprint. -/
theorem fingerprint_of_agrees (h : r.agrees r') : r.fingerprint = r'.fingerprint := by
  have hperm := (perm_of_agrees (fun _ _ => Module.fingerprint_of_agrees) h).map
    fun y => mixHash (hash y.1) y.2
  rw [List.map_map, List.map_map] at hperm
  exact hperm.foldr_eq 0

/-- Registries of identifiers agree just when they have the same names with the same modules under
them. -/
theorem agrees_iff_content (h : r.Proper) (h' : r'.Proper) :
    r.agrees r' ↔ r.content = r'.content := by
  constructor
  · intro ha
    exact List.toFinset_eq_of_perm _ _ (perm_of_agrees (fun _ _ => Module.content_of_agrees) ha)
  · intro hc
    have hperm := List.perm_of_nodup_nodup_toFinset_eq (nodup_entries _ r) (nodup_entries _ r') hc
    refine agrees_iff.2 ⟨by simpa using hperm.length_eq, fun e he => ?_⟩
    obtain ⟨⟨x, m⟩, hm, hxm⟩ := List.mem_map.1 (hperm.mem_iff.1 (List.mem_map_of_mem he))
    obtain ⟨rfl, hcontent⟩ := Prod.mk.inj hxm
    exact ⟨m, hm, (Module.agrees_iff_content (h e he) (h' _ hm)).2 hcontent.symm⟩

theorem Proper.agrees_self (h : r.Proper) : r.agrees r :=
  (agrees_iff_content h h).2 rfl

/-! ## Entries in another order -/

theorem get?_of_perm (h : r.entries.Perm r'.entries) (x : String) : r.get? x = r'.get? x := by
  ext m
  rw [get?_eq_some_iff, get?_eq_some_iff, h.mem_iff]

theorem get_of_perm (h : r.entries.Perm r'.entries) (x : String) : r.get x = r'.get x := by
  rw [get, get, get?_of_perm h]

theorem declares_of_perm (h : r.entries.Perm r'.entries) (x : String) (p : Identifier) :
    r.declares x p = r'.declares x p := by
  rw [declares, declares, get?_of_perm h]

theorem mem_pairs_of_perm (h : r.entries.Perm r'.entries) (e : String × Identifier) :
    e ∈ r.pairs ↔ e ∈ r'.pairs := by
  obtain ⟨x, p⟩ := e
  rw [← declares_iff_mem_pairs, ← declares_iff_mem_pairs, declares_of_perm h]

theorem entries_extend_perm (hp : ms.Perm ms') (h : r.Admits ms) (h' : r.Admits ms') :
    (r.extend ms h).entries.Perm (r.extend ms' h').entries :=
  List.Perm.append_left r.entries (hp.map fun m => (m.name, m))

/-- Take two orders of the same modules, which hold nothing but identifiers, as does the registry
that they are put into. In both orders they can be put in or in neither. If so the two registries
agree, have the same fingerprint, declare the same, have the same modules under the same names and
differ in the order of their scopes at most. Registries of identifiers agree just when they have the
same set of names with modules, and modules just when they have the same name and the same set of
permissions; and whatever agrees has the same fingerprint. -/
theorem assemble_order_free (r : Registry) (ms ms' : List Module) (s t : Session)
    (hr : r.Proper) (hms : ∀ m ∈ ms, m.Proper) (hp : ms.Perm ms') :
    ((∃ q, ((assemble ms r).outcome s).1 = .ok q) ↔
      ∃ q, ((assemble ms' r).outcome t).1 = .ok q) ∧
    (∀ q q', ((assemble ms r).outcome s).1 = .ok q → ((assemble ms' r).outcome t).1 = .ok q' →
      q.agrees q' ∧ q.fingerprint = q'.fingerprint ∧ (∀ e, e ∈ q.pairs ↔ e ∈ q'.pairs) ∧
        (∀ x p, q.declares x p = q'.declares x p) ∧ (∀ x, q.get x = q'.get x) ∧
        q.scopes.Perm q'.scopes) ∧
    (∀ q q' : Registry, q.Proper → q'.Proper → (q.agrees q' ↔ q.content = q'.content)) ∧
    (∀ m m' : Module, m.Proper → m'.Proper → (m.agrees m' ↔ m.content = m'.content)) ∧
    (∀ q q' : Registry, q.agrees q' → q.fingerprint = q'.fingerprint) ∧
    ∀ m m' : Module, m.agrees m' → m.fingerprint = m'.fingerprint := by
  refine ⟨?_, fun q q' hq hq' => ?_, fun _ _ => agrees_iff_content,
    fun _ _ => Module.agrees_iff_content, fun _ _ => fingerprint_of_agrees,
    fun _ _ => Module.fingerprint_of_agrees⟩
  · rw [ok_iff_admits, ok_iff_admits]
    exact ⟨fun h => h.of_perm hp, fun h => h.of_perm hp.symm⟩
  · obtain ⟨h, rfl, -⟩ := admits_of_outcome (Prod.ext hq rfl)
    obtain ⟨h', rfl, -⟩ := admits_of_outcome (Prod.ext hq' rfl)
    have hself : ∀ m ∈ ms, m.agrees m := fun m hm => (hms m hm).agrees_self
    have hagrees := agrees_extend_of_perm hr.agrees_self hself hp h h'
    have hperm := entries_extend_perm hp h h'
    exact ⟨hagrees, fingerprint_of_agrees hagrees, mem_pairs_of_perm hperm,
      declares_of_perm hperm, get_of_perm hperm, hperm.map _⟩

/-- The registry has a module under another name than its own, and one without a name for one of its
permissions. -/
theorem assemble_order_free_two :
    let r : Registry := ⟨[("lab", .ofIdentifiers "team" [some "READ", none])], by simp⟩
    let user : Module := .ofIdentifiers "user" [some "READ", some "WRITE"]
    let team : Module := .ofIdentifiers "team" [none]
    ∃ q q', ((assemble [user, team] r).outcome {}).1 = .ok q ∧
      ((assemble [team, user] r).outcome {}).1 = .ok q' ∧
      q.scopes = ["lab", "user", "team"] ∧ q'.scopes = ["lab", "team", "user"] ∧
      q.agrees q' ∧ q.fingerprint = q'.fingerprint ∧ q.get "team" = q'.get "team" := by
  intro r user team
  have hr : r.Proper := List.forall_mem_singleton.2 rfl
  have hms : ∀ m ∈ [user, team], m.Proper :=
    List.forall_mem_cons.2 ⟨rfl, List.forall_mem_singleton.2 rfl⟩
  have hadmits : r.Admits [user, team] := ⟨by decide, by decide⟩
  have hp : [user, team].Perm [team, user] := .swap team user []
  obtain ⟨-, hsame, -⟩ := assemble_order_free r [user, team] [team, user] {} {} hr hms hp
  have hq := congrArg Prod.fst (outcome_assemble (s := {}) hadmits)
  have hq' := congrArg Prod.fst (outcome_assemble (s := {}) (hadmits.of_perm hp))
  obtain ⟨hagrees, hfingerprint, -, -, hget, -⟩ := hsame _ _ hq hq'
  exact ⟨_, _, hq, hq', rfl, rfl, hagrees, hfingerprint, hget "team"⟩

end Registry

end Clearance
