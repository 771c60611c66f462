import Clearance.Proofs.Assembly
import Mathlib.Data.List.Forall2

/-!
# Registries that agree

Modules that agree have the same name and the same permissions (`Module.agrees_iff`), so that they
leave the same records in the log when they are registered (`Module.records_of_agrees`). Registries
may agree and have their scopes in the same order, too (`Registry.Alike`). This is kept by each
module that is put into both if the modules agree (`Registry.assemble_of_agrees`). Modules that are
put in in another order come to registries that agree if they come to registries at all, which does
not depend on the order (`Registry.assemble_of_perm`).
-/

namespace Clearance

namespace Module

variable {m m' : Module}

theorem agrees_iff : m.agrees m' ↔ m.name = m'.name ∧
    (∀ p, p ∈ m.permissions ↔ p ∈ m'.permissions) ∧
    m.foreign.length = m'.foreign.length ∧ Value.within m.foreign m'.foreign := by
  simp only [agrees, declares, Bool.and_eq_true, beq_iff_eq, List.all_eq_true,
    List.contains_eq_mem, decide_eq_true_eq, and_assoc]
  refine and_congr_right fun _ => ?_
  rw [← and_assoc]
  refine and_congr_left fun _ => ?_
  exact ⟨fun h p => ⟨h.1 p, h.2 p⟩, fun h => ⟨fun p => (h p).1, fun p => (h p).2⟩⟩

/-- Modules that hold nothing but identifiers agree if they have the same name and the same
permissions. -/
theorem agrees_of_permissions (hf : m.foreign = []) (hf' : m'.foreign = [])
    (hname : m.name = m'.name) (h : ∀ p, p ∈ m.permissions ↔ p ∈ m'.permissions) :
    m.agrees m' := by
  rw [agrees_iff, hf, hf']
  exact ⟨hname, h, rfl, rfl⟩

theorem size_of_agrees (h : m.agrees m') : m.size = m'.size := by
  obtain ⟨-, hp, hf, -⟩ := agrees_iff.1 h
  have hperm : m.permissions.Perm m'.permissions :=
    (List.perm_ext_iff_of_nodup m.nodup m'.nodup).2 hp
  rw [size, size, hperm.length_eq, hf]

theorem records_of_agrees (h : m.agrees m') : m.records = m'.records := by
  rw [records, records, (agrees_iff.1 h).1, size_of_agrees h]

end Module

namespace Registry

variable {r r' : Registry} {m m' : Module} {ms ms' : List Module} {s t : Session}

theorem agrees_iff : r.agrees r' ↔ r.entries.length = r'.entries.length ∧
    ∀ e ∈ r.entries, ∃ m, (e.1, m) ∈ r'.entries ∧ e.2.agrees m := by
  simp only [agrees, Bool.and_eq_true, beq_iff_eq, List.all_eq_true, Option.any_eq_true,
    get?_eq_some_iff]

/-! ## Modules that agree -/

/-- The registries agree, and their scopes are in the same order. -/
structure Alike (r r' : Registry) : Prop where
  agrees : r.agrees r'
  scopes : r.scopes = r'.scopes

theorem Alike.insert (h : r.Alike r') (hm : m.agrees m') (hx : m.name ∉ r.scopes)
    (hx' : m'.name ∉ r'.scopes) :
    (r.insert m.name m hx).Alike (r'.insert m'.name m' hx') := by
  have hname : m.name = m'.name := (Module.agrees_iff.1 hm).1
  obtain ⟨hlength, hentries⟩ := agrees_iff.1 h.agrees
  constructor
  · refine agrees_iff.2 ⟨by simp [Registry.insert, hlength], fun e he => ?_⟩
    rcases List.mem_append.1 he with he | he
    · obtain ⟨n, hn, hen⟩ := hentries e he
      exact ⟨n, List.mem_append_left _ hn, hen⟩
    · rw [List.mem_singleton.1 he]
      exact ⟨m', List.mem_append_right _ (by rw [hname]; exact List.mem_singleton_self _), hm⟩
  · have hs := h.scopes
    simp only [Registry.scopes] at hs
    simp [Registry.scopes, Registry.insert, hs, hname]

/-- Two ways of putting a registry together end alike: in registries that agree and have their
scopes in the same order, or since the name of the same scope is taken, and with the same records in
the log. -/
structure SameEnd (x y : Except Failure Registry × Session) : Prop where
  result : (∃ r r', x.1 = .ok r ∧ y.1 = .ok r' ∧ r.Alike r') ∨
    ∃ scope, x.1 = .error (.duplicateScope scope) ∧ y.1 = .error (.duplicateScope scope)
  records : x.2.records = y.2.records

/-- Modules that agree are registered in the same way, as long as the registries are alike. -/
theorem Alike.register (h : r.Alike r') (hm : m.agrees m') (hst : s.records = t.records) :
    SameEnd ((register m r).outcome s) ((register m' r').outcome t) := by
  have hname : m.name = m'.name := (Module.agrees_iff.1 hm).1
  rw [outcome_register, outcome_register]
  by_cases hx : m.name ∈ r.scopes
  · have hx' : m'.name ∈ r'.scopes := hname ▸ h.scopes ▸ hx
    rw [dif_pos hx, dif_pos hx']
    exact ⟨.inr ⟨m.name, rfl, by rw [hname]⟩, hst⟩
  · have hx' : m'.name ∉ r'.scopes := hname ▸ h.scopes ▸ hx
    rw [dif_neg hx, dif_neg hx']
    refine ⟨.inl ⟨_, _, rfl, rfl, h.insert hm hx hx'⟩, ?_⟩
    rw [Session.records_emit, Session.records_emit, hst, Module.records_of_agrees hm]

/-- Modules that agree one by one are put together in the same way. -/
theorem assemble_of_agrees (hms : List.Forall₂ (fun m m' => m.agrees m') ms ms')
    (h : r.Alike r') (hst : s.records = t.records) :
    SameEnd ((assemble ms r).outcome s) ((assemble ms' r').outcome t) := by
  -- along both lists: the registries stay alike, and so do the records
  induction hms generalizing r r' s t with
  | nil => exact ⟨.inl ⟨r, r', rfl, rfl, h⟩, hst⟩
  | @cons m m' ms ms' hm _ ih =>
    obtain ⟨hresult, hrecords⟩ := h.register hm hst
    rw [assemble, assemble, List.foldlM_cons, List.foldlM_cons, Run.outcome_bind,
      Run.outcome_bind]
    rcases hx : (register m r).outcome s with ⟨x, s'⟩
    rcases hy : (register m' r').outcome t with ⟨y, t'⟩
    rw [hx, hy] at hresult hrecords
    rcases hresult with ⟨q, q', rfl, rfl, hq⟩ | ⟨scope, rfl, rfl⟩
    · exact ih hq hrecords
    · exact ⟨.inr ⟨scope, rfl, rfl⟩, hrecords⟩

/-! ## Modules in another order -/

/-- Whether modules are admitted does not depend on their order. -/
theorem Admits.of_perm (h : r.Admits ms) (hp : ms.Perm ms') : r.Admits ms' where
  nodup := ((hp.map _).nodup_iff).1 h.nodup
  fresh m hm := h.fresh m (hp.mem_iff.2 hm)

/-- A registry with more modules agrees with the one that has them in another order, if each of them
agrees with itself. -/
theorem agrees_extend_of_perm (hr : r.agrees r) (hms : ∀ m ∈ ms, m.agrees m) (hp : ms.Perm ms')
    (h : r.Admits ms) (h' : r.Admits ms') : (r.extend ms h).agrees (r.extend ms' h') := by
  refine agrees_iff.2 ⟨by simp [extend, hp.length_eq], fun e he => ?_⟩
  rcases List.mem_append.1 he with he | he
  · obtain ⟨m, hm, hem⟩ := (agrees_iff.1 hr).2 e he
    exact ⟨m, List.mem_append_left _ hm, hem⟩
  · obtain ⟨m, hm, rfl⟩ := List.mem_map.1 he
    exact ⟨m, List.mem_append_right _ (List.mem_map.2 ⟨m, hp.mem_iff.1 hm, rfl⟩), hms m hm⟩

/-- Two ways of putting a registry together end alike up to the order of the scopes: in registries
that agree, or both since the name of some scope is taken. -/
def SameUpToOrder (x y : Except Failure Registry) : Prop :=
  (∃ r r', x = .ok r ∧ y = .ok r' ∧ r.agrees r') ∨
    ∃ scope scope', x = .error (.duplicateScope scope) ∧ y = .error (.duplicateScope scope')

theorem assemble_of_perm (hr : r.agrees r) (hms : ∀ m ∈ ms, m.agrees m) (hp : ms.Perm ms') :
    SameUpToOrder ((assemble ms r).outcome s).1 ((assemble ms' r).outcome t).1 := by
  rcases admits_or_taken r ms with h | ⟨before, m, after, rfl, hb, hm⟩
  · have h' := h.of_perm hp
    rw [outcome_assemble h, outcome_assemble h']
    exact .inl ⟨_, _, rfl, rfl, agrees_extend_of_perm hr hms hp h h'⟩
  · rcases admits_or_taken r ms' with h' | ⟨before', m', after', rfl, hb', hm'⟩
    · exact absurd hm (h'.of_perm hp.symm).not_taken
    · rw [outcome_assemble_of_taken hb hm, outcome_assemble_of_taken hb' hm']
      exact .inr ⟨m.name, m'.name, rfl, rfl⟩

end Registry

end Clearance
