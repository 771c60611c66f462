import Clearance.Proofs.Outcome
import Clearance.Registry.Assembly
import Mathlib.Data.List.Induction
import Mathlib.Data.List.Nodup

/-!
# What comes of putting a registry together

Modules can be put into a registry if their names are all different and none of them is in use
(`Registry.Admits`). They then stand after the modules that were there, in order
(`Registry.extend`, `Registry.outcome_assemble`). Otherwise there is a first module whose name is
in use by then (`Registry.Taken`), and putting them together fails with this name
(`Registry.outcome_assemble_of_taken`). Either way the log has the records of the modules that were
put in (`Module.registrations`) and nothing of the one that was refused.

A registry that has come about from the empty one in this way keeps each module under the name
of that module (`Registry.Composed.keyed`).
-/

namespace Clearance

namespace Module

/-- What is written into the log when the module is registered: a warning if no path can name the
scope, and how many permissions it has. -/
def records (m : Module) : List Record :=
  (if Path.separator ∈ m.name.toList then [.unaddressableScope m.name] else []) ++
    [.registering m.name m.size]

/-- The events of registering the modules in order. -/
def registrations (ms : List Module) : List Event :=
  ms.flatMap fun m => m.records.map .logged

theorem registrations_cons (m : Module) (ms : List Module) :
    registrations (m :: ms) = m.records.map .logged ++ registrations ms :=
  rfl

/-- There is a warning first just when the name has a separator in it. -/
theorem level_records (m : Module) :
    m.records.map Record.level =
      if Path.separator ∈ m.name.toList then [.warning, .debug] else [.debug] := by
  rw [records]
  split <;> rfl

end Module

namespace Registry

/-- The modules have different names, and none of these is in use. -/
structure Admits (r : Registry) (ms : List Module) : Prop where
  nodup : (ms.map (·.name)).Nodup
  fresh : ∀ m ∈ ms, m.name ∉ r.scopes

/-- The name of the module is in use once the modules before it are there. -/
def Taken (r : Registry) (before : List Module) (m : Module) : Prop :=
  m.name ∈ r.scopes ∨ m.name ∈ before.map (·.name)

/-- The registry with the modules after its own. -/
def extend (r : Registry) (ms : List Module) (h : r.Admits ms) : Registry :=
  ⟨r.entries ++ ms.map fun m => (m.name, m), by
    rw [List.map_append, List.map_map, List.nodup_append]
    refine ⟨r.nodup, h.nodup, ?_⟩
    rintro x hx y hy rfl
    obtain ⟨m, hm, rfl⟩ := List.mem_map.1 hy
    exact h.fresh m hm hx⟩

/-! ## Modules that are admitted -/

section

variable {r r' : Registry} {m : Module} {ms before after : List Module} {x : String}
  {s t : Session}

theorem admits_nil : r.Admits [] :=
  ⟨List.nodup_nil, fun _ h => absurd h List.not_mem_nil⟩

@[simp] theorem scopes_extend (h : r.Admits ms) :
    (r.extend ms h).scopes = r.scopes ++ ms.map (·.name) := by
  simp [extend, scopes, Function.comp_def]

@[simp] theorem mem_scopes_insert (h : m.name ∉ r.scopes) :
    x ∈ (r.insert m.name m h).scopes ↔ x ∈ r.scopes ∨ x = m.name := by
  simp [insert, scopes]

/-- What was under a name stays there. -/
theorem get?_extend_of_mem (h : r.Admits ms) (hx : x ∈ r.scopes) :
    (r.extend ms h).get? x = r.get? x := by
  obtain ⟨⟨_, m⟩, hm, rfl⟩ := List.mem_map.1 hx
  rw [get?_eq_some_iff.2 hm, get?_eq_some_iff]
  exact List.mem_append_left _ hm

theorem get?_extend_of_mem_modules (h : r.Admits ms) (hm : m ∈ ms) :
    (r.extend ms h).get? m.name = some m :=
  get?_eq_some_iff.2 (List.mem_append_right _ (List.mem_map_of_mem hm))

/-- What is legal then was legal before, or is in the module of the scope. -/
theorem mem_pairs_extend {n : String} {p : Identifier} (h : r.Admits ms) :
    (n, p) ∈ (r.extend ms h).pairs ↔
      (n, p) ∈ r.pairs ∨ ∃ m ∈ ms, m.name = n ∧ p ∈ m.permissions := by
  simp only [pairs, extend, List.flatMap_append, List.mem_append, List.mem_flatMap, List.mem_map,
    exists_exists_and_eq_and, Prod.mk.injEq]
  refine or_congr_right ⟨?_, ?_⟩
  · rintro ⟨m, hm, _, hp, rfl, rfl⟩
    exact ⟨m, hm, rfl, hp⟩
  · rintro ⟨m, hm, rfl, hp⟩
    exact ⟨m, hm, p, hp, rfl, rfl⟩

/-- One more module is admitted after others just when its name is not taken. -/
theorem admits_concat : r.Admits (ms ++ [m]) ↔ r.Admits ms ∧ ¬ r.Taken ms m := by
  have hn : ((ms ++ [m]).map (·.name)).Nodup ↔
      m.name ∉ ms.map (·.name) ∧ (ms.map (·.name)).Nodup := by
    rw [List.map_append, List.map_singleton, ← List.concat_eq_append, List.nodup_concat]
  constructor
  · rintro ⟨hnodup, hfresh⟩
    obtain ⟨hm, hms⟩ := hn.1 hnodup
    exact ⟨⟨hms, fun m' h => hfresh m' (List.mem_append_left _ h)⟩,
      fun h => h.elim (hfresh m (by simp)) hm⟩
  · rintro ⟨⟨hms, hfresh⟩, hm⟩
    refine ⟨hn.2 ⟨fun h => hm (.inr h), hms⟩, fun m' h => ?_⟩
    rcases List.mem_append.1 h with h | h
    · exact hfresh m' h
    · exact List.mem_singleton.1 h ▸ fun h => hm (.inl h)

theorem Admits.of_append (h : r.Admits (before ++ after)) : r.Admits before where
  nodup := (List.nodup_append.1 (List.map_append ▸ h.nodup)).1
  fresh m hm := h.fresh m (List.mem_append_left _ hm)

/-- In a list of modules that are admitted no name is taken by the time it comes. -/
theorem Admits.not_taken (h : r.Admits (before ++ m :: after)) : ¬ r.Taken before m := by
  rw [List.append_cons] at h
  exact (admits_concat.1 h.of_append).2

/-- Modules are admitted, or there is a first one whose name is taken. -/
theorem admits_or_taken (r : Registry) (ms : List Module) :
    r.Admits ms ∨
      ∃ before m after, ms = before ++ m :: after ∧ r.Admits before ∧ r.Taken before m := by
  induction ms using List.reverseRecOn with
  | nil => exact .inl admits_nil
  | append_singleton ms m ih =>
    rcases ih with h | ⟨before, m', after, rfl, h⟩
    · by_cases hm : r.Taken ms m
      · exact .inr ⟨ms, m, [], rfl, h, hm⟩
      · exact .inl (admits_concat.2 ⟨h, hm⟩)
    · exact .inr ⟨before, m', after ++ [m], by simp, h⟩

/-! ## The course of putting them together -/

/-- A name that is in use is refused, and nothing is written. Otherwise the module stands at the
end, and its records are written. -/
theorem outcome_register :
    (register m r).outcome s =
      if h : m.name ∈ r.scopes then (.error (.duplicateScope m.name), s)
      else (.ok (r.insert m.name m h), s.emit (m.records.map .logged)) := by
  unfold register
  split
  · rfl
  · rw [Module.records]
    split <;> simp [Run.outcome_bind, Except.map]

/-- Modules that are admitted are all put in, in order. -/
theorem outcome_assemble (h : r.Admits ms) :
    (assemble ms r).outcome s = (.ok (r.extend ms h), s.emit (Module.registrations ms)) := by
  induction ms generalizing r s with
  | nil => simp [assemble, extend, Module.registrations]
  | cons m ms ih =>
    have hm : m.name ∉ r.scopes := h.fresh m List.mem_cons_self
    have hms : (r.insert m.name m hm).Admits ms := by
      have hn := List.nodup_cons.1 h.nodup
      refine ⟨hn.2, fun m' h' => ?_⟩
      rw [mem_scopes_insert, not_or]
      exact ⟨h.fresh m' (List.mem_cons_of_mem m h'), fun e => hn.1 (List.mem_map.2 ⟨m', h', e⟩)⟩
    have hr : (r.insert m.name m hm).extend ms hms = r.extend (m :: ms) h := by
      simp [extend, insert]
    rw [assemble, List.foldlM_cons, Run.outcome_bind, outcome_register, dif_neg hm]
    show (assemble ms _).outcome _ = _
    rw [ih hms, hr, Session.emit_emit, Module.registrations_cons]

/-- The first module whose name is taken is refused, and what comes after it is not looked at. -/
theorem outcome_assemble_of_taken (h : r.Admits before) (hm : r.Taken before m) :
    (assemble (before ++ m :: after) r).outcome s =
      (.error (.duplicateScope m.name), s.emit (Module.registrations before)) := by
  have hx : m.name ∈ (r.extend before h).scopes := by
    rw [scopes_extend, List.mem_append]
    exact hm
  have hb : (before.foldlM (fun r m => register m r) r).outcome s =
      (.ok (r.extend before h), s.emit (Module.registrations before)) := outcome_assemble h
  rw [assemble, List.foldlM_append, Run.outcome_bind, hb]
  simp only [List.foldlM_cons, Run.outcome_bind, outcome_register, dif_pos hx]

/-- Modules that can be put together are admitted, and what they come to is the registry with
them after its own. -/
theorem admits_of_outcome (h : (assemble ms r).outcome s = (.ok r', t)) :
    ∃ hms : r.Admits ms, r' = r.extend ms hms ∧ t = s.emit (Module.registrations ms) := by
  rcases admits_or_taken r ms with hms | ⟨before, m, after, rfl, hb, hm⟩
  · rw [outcome_assemble hms] at h
    cases h
    exact ⟨hms, rfl, rfl⟩
  · rw [outcome_assemble_of_taken hb hm] at h
    cases h

/-- Modules can be put together just when they are admitted. -/
theorem ok_iff_admits : (∃ r', ((assemble ms r).outcome s).1 = .ok r') ↔ r.Admits ms := by
  constructor
  · rintro ⟨r', h⟩
    obtain ⟨hms, -, -⟩ := admits_of_outcome (Prod.ext h rfl)
    exact hms
  · exact fun hms => ⟨_, congrArg Prod.fst (outcome_assemble hms)⟩

/-- What putting modules together comes to, and what happens on the way, does not depend on what
happened before. -/
theorem exists_outcome_assemble (r : Registry) (ms : List Module) :
    ∃ x es, ∀ s, (assemble ms r).outcome s = (x, s.emit es) := by
  rcases admits_or_taken r ms with h | ⟨before, m, after, rfl, h, hm⟩
  · exact ⟨_, _, fun s => outcome_assemble h⟩
  · exact ⟨_, _, fun s => outcome_assemble_of_taken h hm⟩

theorem assemble_result (r : Registry) (ms : List Module) (s t : Session) :
    ((assemble ms r).outcome s).1 = ((assemble ms r).outcome t).1 := by
  obtain ⟨x, es, h⟩ := exists_outcome_assemble r ms
  rw [h, h]

/-- If putting modules together fails, then because a name is in use. -/
theorem error_of_assemble {e : Failure} (h : ((assemble ms r).outcome s).1 = .error e) :
    ∃ m ∈ ms, e = .duplicateScope m.name := by
  rcases admits_or_taken r ms with hms | ⟨before, m, after, rfl, hb, hm⟩
  · rw [outcome_assemble hms] at h
    cases h
  · rw [outcome_assemble_of_taken hb hm] at h
    exact ⟨m, by simp, (Except.error.inj h).symm⟩

/-! ## Registries put together from nothing -/

/-- The registries that come about from the empty one by putting in modules, one by one or
several at once. -/
inductive Composed : Registry → Prop
  | empty : Composed empty
  | register {r r' : Registry} {m : Module} {s t : Session} (hr : Composed r)
      (h : (register m r).outcome s = (.ok r', t)) : Composed r'
  | assemble {r r' : Registry} {ms : List Module} {s t : Session} (hr : Composed r)
      (h : (assemble ms r).outcome s = (.ok r', t)) : Composed r'

/-- Each module stands under its name. -/
def Keyed (r : Registry) : Prop :=
  ∀ e ∈ r.entries, e.1 = e.2.name

theorem Keyed.extend (hr : r.Keyed) (h : r.Admits ms) : (r.extend ms h).Keyed := by
  intro e he
  rcases List.mem_append.1 he with he | he
  · exact hr e he
  · obtain ⟨m, _, rfl⟩ := List.mem_map.1 he
    rfl

/-- In a registry that is put together from nothing each module stands under its name. -/
theorem Composed.keyed (h : Composed r) : r.Keyed := by
  induction h with
  | empty => exact fun _ h => absurd h List.not_mem_nil
  | @register r r' m s t _ h ih =>
    -- one module is a list of one module
    have h1 : (Registry.assemble [m] r).outcome s = (.ok r', t) := by
      rw [Registry.assemble, List.foldlM_cons, Run.outcome_bind, h]
      rfl
    obtain ⟨hms, rfl, -⟩ := admits_of_outcome h1
    exact ih.extend hms
  | assemble _ h ih =>
    obtain ⟨hms, rfl, -⟩ := admits_of_outcome h
    exact ih.extend hms

/-- Where each module stands under its name, no two have the same name. -/
theorem Keyed.nodup_names (h : r.Keyed) : (r.entries.map (·.2.name)).Nodup := by
  have : r.entries.map (·.2.name) = r.scopes := List.map_congr_left fun e he => (h e he).symm
  exact this ▸ r.nodup

end

/-- Putting modules into a registry succeeds just when their names are all different and none is
in use. The modules then stand after the ones that were there, which keep their places. Otherwise
it fails with the name of the first module whose name is in use or was given to an earlier one.
Either way the log has the records of the modules before that one, each with a warning first if
no path can name its scope. So where everything was put in like this from nothing, each module
stands under its name, and no name comes twice. -/
theorem assemble_exact (r : Registry) (ms : List Module) (s : Session) :
    ((∃ r', ((assemble ms r).outcome s).1 = .ok r') ↔
      (ms.map (·.name)).Nodup ∧ ∀ m ∈ ms, m.name ∉ r.scopes) ∧
    (∀ r' t, (assemble ms r).outcome s = (.ok r', t) →
      r'.scopes = r.scopes ++ ms.map (·.name) ∧ (∀ x ∈ r.scopes, r'.get? x = r.get? x) ∧
        (∀ m ∈ ms, r'.get? m.name = some m) ∧ t = s.emit (Module.registrations ms)) ∧
    (∀ e t, (assemble ms r).outcome s = (.error e, t) →
      ∃ before m after, ms = before ++ m :: after ∧
        (m.name ∈ r.scopes ∨ m.name ∈ before.map (·.name)) ∧
        (∀ earlier m' later, before = earlier ++ m' :: later →
          ¬ (m'.name ∈ r.scopes ∨ m'.name ∈ earlier.map (·.name))) ∧
        e = .duplicateScope m.name ∧ t = s.emit (Module.registrations before)) ∧
    (∀ m ∈ ms, m.records.map Record.level =
      if Path.separator ∈ m.name.toList then [.warning, .debug] else [.debug]) ∧
    ∀ r₀, Composed r₀ →
      (∀ e ∈ r₀.entries, e.1 = e.2.name) ∧ (r₀.entries.map (·.2.name)).Nodup := by
  refine ⟨⟨fun ⟨r', h⟩ => ?_, fun ⟨hn, hf⟩ => ?_⟩, fun r' t h => ?_, fun e t h => ?_,
    fun m _ => m.level_records, fun r₀ h => ⟨h.keyed, h.keyed.nodup_names⟩⟩
  · obtain ⟨hms, -, -⟩ := admits_of_outcome (Prod.ext h rfl)
    exact ⟨hms.nodup, hms.fresh⟩
  · exact ⟨_, congrArg Prod.fst (outcome_assemble ⟨hn, hf⟩)⟩
  · obtain ⟨hms, rfl, rfl⟩ := admits_of_outcome h
    exact ⟨scopes_extend hms, fun x => get?_extend_of_mem hms,
      fun m => get?_extend_of_mem_modules hms, rfl⟩
  · rcases admits_or_taken r ms with hms | ⟨before, m, after, rfl, hb, hm⟩
    · rw [outcome_assemble hms] at h
      cases h
    · rw [outcome_assemble_of_taken hb hm] at h
      cases h
      exact ⟨before, m, after, rfl, hm, fun earlier m' later hs => (hs ▸ hb).not_taken, rfl, rfl⟩

end Registry

end Clearance
