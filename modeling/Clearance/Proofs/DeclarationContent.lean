import Clearance.Proofs.Acceptance
import Clearance.Proofs.Agreement
import Clearance.Proofs.DeclarationGrammar

/-!
# A declaration means its content

A registry can be declared by a value (`Registry.declaration`) or be put together by hand, from
domains that are made of the permissions and bound to the names (`Registry.ofDomains`). Either way
the modules are the same, since it makes no difference whether repeated permissions are left out
before a module is made or only then (`ModuleDeclaration.toModule_declaredModule`), and nothing but
looks comes before they are put together. So all that counts is the name and the set of permissions
of each module (`ModuleDeclaration.SameContent`).
-/

namespace Clearance

namespace ModuleDeclaration

/-- The permissions as a caller writes them. -/
def permissionsValue (d : ModuleDeclaration) : Value :=
  .container .list (d.permissions.map .text)

/-- The declaration as a caller writes it. -/
def toValue (d : ModuleDeclaration) : Value :=
  .mapping .table [(.text "name", .text d.name), (.text "permissions", d.permissionsValue)]

/-- The module that is made by hand: the domain of the permissions, bound to the name. -/
def make (d : ModuleDeclaration) : Run Module := do
  return (← PermissionDomain.ofValue d.permissionsValue).named d.name

/-- The declarations have the same name and the same permissions, in whatever order and however
often. -/
structure SameContent (d d' : ModuleDeclaration) : Prop where
  name : d.name = d'.name
  permissions : ∀ p, p ∈ d.permissions ↔ p ∈ d'.permissions

variable {d d' : ModuleDeclaration} {lists : List (List Value)}

theorem SameContent.refl (d : ModuleDeclaration) : d.SameContent d :=
  ⟨rfl, fun _ => .rfl⟩

/-! ## Modules -/

/-- Declarations with the same content stand for modules that agree. -/
theorem SameContent.agrees (h : d.SameContent d') : d.toModule.agrees d'.toModule :=
  Module.agrees_of_permissions rfl rfl h.name fun p => by
    simp only [mem_permissions_toModule, h.permissions]

theorem SameContent.sound (h : d.SameContent d') (hd : d.Sound) : d'.Sound where
  name := h.name ▸ hd.name
  permissions q hq := hd.permissions q ((h.permissions q).2 hq)

theorem SameContent.permissions_ne_nil (h : d.SameContent d') (hd : d.permissions ≠ []) :
    d'.permissions ≠ [] := by
  obtain ⟨p, hp⟩ := List.exists_mem_of_ne_nil _ hd
  exact List.ne_nil_of_mem ((h.permissions p).1 hp)

/-! ## The declaration of a module -/

theorem isIdentifier_text {s : String} (h : Path.IsPart s) : (Value.text s).IsIdentifier :=
  ⟨s, rfl, h⟩

theorem declaresModule_toValue (hd : d.Sound) (hne : d.permissions ≠ []) :
    d.toValue.DeclaresModule lists := by
  refine ⟨rfl, ⟨.text d.name, rfl, isIdentifier_text hd.name⟩, d.permissionsValue, rfl,
    d.permissions.map .text, rfl, by simpa using hne, fun x hx => ?_⟩
  obtain ⟨q, hq, rfl⟩ := List.mem_map.1 hx
  exact isIdentifier_text (hd.permissions q hq)

theorem jsonIn_toValue : d.toValue.JsonIn lists := by
  have hpermissions : d.permissionsValue.JsonIn lists := by
    refine .list fun x hx => ?_
    obtain ⟨q, -, rfl⟩ := List.mem_map.1 hx
    exact .text q
  refine .table (by simp) ?_
  simp only [List.forall_mem_cons]
  exact ⟨.text _, hpermissions, nofun⟩

theorem declaredModule_toValue :
    d.toValue.declaredModule lists = ⟨d.name, distinct d.permissions⟩ := by
  have htexts : (d.permissions.map Value.text).map Value.textOrEmpty = d.permissions := by
    rw [List.map_map]
    exact List.map_id _
  show (⟨d.name, distinct ((d.permissions.map Value.text).map Value.textOrEmpty)⟩ :
    ModuleDeclaration) = _
  rw [htexts]

/-- A module is the same if repeated permissions are left out before it is made. -/
theorem toModule_declaredModule :
    (d.toValue.declaredModule lists).toModule = d.toModule := by
  have hdistinct : distinct ((distinct d.permissions).map some) =
      distinct (d.permissions.map some) := by
    rw [distinct_map fun _ _ => Option.some.inj, distinct_map fun _ _ => Option.some.inj,
      distinct_of_nodup (nodup_distinct _)]
  rw [declaredModule_toValue]
  simp only [toModule, Module.ofIdentifiers, PermissionDomain.named,
    PermissionDomain.ofIdentifiers, hdistinct]

/-- The identifiers of a list of texts are these texts, and are found by a look. -/
theorem reads_identifyAllFixed (qs : List String) (s : Session) :
    (Run.identifyAllFixed (.container .list (qs.map .text))).Reads s (qs.map .text) := by
  have hgather : (Handling.identifyingFixed s.lists).gatherIn
      (.container .list (qs.map .text)) s = .ok (qs.map .text) := by
    rw [Identifier.map_text]
    exact Identifier.gather_toValue _ (Identifier.result_identifyingFixed s.lists)
  have hlook : (Handling.identifyingFixed s.lists).eventsIn (.container .list (qs.map .text)) s =
      [.look (.container .list (qs.map .text)) .traversed] := by
    rw [Identifier.map_text]
    exact Identifier.eventsIn_toValue _ s (by simp [Handling.identifyingFixed]) .list
  refine ⟨_, ?_, .look s (.container .list (qs.map .text)) .traversed⟩
  rw [Run.outcome_identifyAllFixed, hgather, hlook]
  rfl

/-- A module is made by a look at its permissions, and is the one that is declared. -/
theorem reads_make (d : ModuleDeclaration) (s : Session) : d.make.Reads s d.toModule := by
  have hdomain : (PermissionDomain.ofValue d.permissionsValue).Reads s
      (.ofIdentifiers (d.permissions.map some)) := by
    refine (reads_identifyAllFixed d.permissions s).bind fun _ _ => ?_
    rw [Identifier.map_text, PermissionDomain.ofValues_toValue]
    exact .pure _
  exact hdomain.bind fun _ _ => .pure _

end ModuleDeclaration

namespace Registry

/-- The declaration of the modules as a caller writes it. -/
def declaration (ds : List ModuleDeclaration) : Value :=
  .mapping .table [(.text "modules", .container .list (ds.map ModuleDeclaration.toValue))]

/-- The registry that is put together by hand: all modules are made, and then put in. -/
def ofDomains (ds : List ModuleDeclaration) : Run Registry := do
  assemble (← ds.mapM ModuleDeclaration.make) .empty

/-- The run does nothing but look, and then puts the declared modules together. -/
def Assembles (x : Run Registry) (ds : List ModuleDeclaration) (s : Session) : Prop :=
  ∃ t, s.Looked t ∧ x.outcome s = (ofDeclarations ds).outcome t

variable {ds ds' : List ModuleDeclaration} {s t : Session} {r : Registry} {x y : Run Registry}

/-! ## Both ways of putting a registry together -/

theorem declaresRegistry_declaration {lists : List (List Value)}
    (hds : ∀ d ∈ ds, d.Sound ∧ d.permissions ≠ []) :
    (declaration ds).DeclaresRegistry lists := by
  refine ⟨rfl, fun w hw => ?_⟩
  obtain rfl : Value.container .list (ds.map ModuleDeclaration.toValue) = w := Option.some.inj hw
  refine ⟨_, rfl, fun x hx => ?_⟩
  obtain ⟨d, hd, rfl⟩ := List.mem_map.1 hx
  exact ModuleDeclaration.declaresModule_toValue (hds d hd).1 (hds d hd).2

theorem jsonIn_declaration {lists : List (List Value)} : (declaration ds).JsonIn lists := by
  refine .table (by simp) ?_
  simp only [List.forall_mem_cons]
  refine ⟨.list fun x hx => ?_, nofun⟩
  obtain ⟨d, -, rfl⟩ := List.mem_map.1 hx
  exact ModuleDeclaration.jsonIn_toValue

theorem assembles_ofValue (hds : ∀ d ∈ ds, d.Sound ∧ d.permissions ≠ []) (s : Session) :
    Assembles (ofValue (declaration ds)) ds s := by
  obtain ⟨t, hst, ht⟩ := outcome_ofValue (v := declaration ds) (s := s) jsonIn_declaration
  rw [(Value.registryIssues_eq_nil _).2 (declaresRegistry_declaration hds)] at ht
  refine ⟨t, hst, ht.trans ?_⟩
  have hmodules : (declaration ds).declaredModules s.lists =
      (ds.map ModuleDeclaration.toValue).map (Value.declaredModule s.lists) := rfl
  simp only [ofDeclarations, hmodules, List.map_map, Function.comp_def,
    ModuleDeclaration.toModule_declaredModule]

theorem assembles_ofDomains (ds : List ModuleDeclaration) (s : Session) :
    Assembles (ofDomains ds) ds s := by
  have hmade : (ds.mapM ModuleDeclaration.make).Reads s (ds.map ModuleDeclaration.toModule) :=
    Run.reads_mapM fun d _ t _ => d.reads_make t
  obtain ⟨t, ht, hst⟩ := hmade
  refine ⟨t, hst, ?_⟩
  rw [ofDomains, Run.outcome_bind, ht]
  rfl

/-! ## What counts of a declaration -/

/-- Declared modules can be put together just when their names are different. -/
theorem admits_toModule :
    Registry.empty.Admits (ds.map ModuleDeclaration.toModule) ↔ (ds.map (·.name)).Nodup := by
  have hnames : (ds.map ModuleDeclaration.toModule).map (·.name) = ds.map (·.name) := by
    rw [List.map_map]
    rfl
  exact ⟨fun h => hnames ▸ h.nodup, fun h => ⟨hnames.symm ▸ h, fun _ _ => List.not_mem_nil⟩⟩

theorem Assembles.ok_iff (hx : Assembles x ds s) :
    (∃ r, (x.outcome s).1 = .ok r) ↔ (ds.map (·.name)).Nodup := by
  obtain ⟨t, -, hx⟩ := hx
  rw [hx]
  exact ok_iff_admits.trans admits_toModule

/-- The registry has the scopes in the order of the declarations, with their permissions. -/
theorem Assembles.content (hx : Assembles x ds s) (hr : (x.outcome s).1 = .ok r) :
    r.scopes = ds.map (·.name) ∧
      ∀ n p, (n, p) ∈ r.pairs ↔ ∃ d ∈ ds, d.name = n ∧ ∃ q ∈ d.permissions, some q = p := by
  obtain ⟨t, -, hx⟩ := hx
  rw [hx] at hr
  obtain ⟨h, rfl, -⟩ := admits_of_outcome (Prod.ext hr rfl)
  refine ⟨?_, fun n p => ?_⟩
  · rw [scopes_extend, List.map_map]
    rfl
  · have hempty : (n, p) ∉ empty.pairs := List.not_mem_nil
    simp only [mem_pairs_extend, hempty, false_or, List.mem_map, exists_exists_and_eq_and,
      ModuleDeclaration.mem_permissions_toModule]
    rfl

theorem sound_of_sameContent (h : List.Forall₂ ModuleDeclaration.SameContent ds ds')
    (hds : ∀ d ∈ ds, d.Sound ∧ d.permissions ≠ []) :
    ∀ d ∈ ds', d.Sound ∧ d.permissions ≠ [] := by
  induction h with
  | nil => exact hds
  | @cons d d' ds ds' hd _ ih =>
    obtain ⟨⟨hsound, hne⟩, hds⟩ := List.forall_mem_cons.1 hds
    exact List.forall_mem_cons.2 ⟨⟨hd.sound hsound, hd.permissions_ne_nil hne⟩, ih hds⟩

theorem Assembles.sameEnd (hx : Assembles x ds s) (hy : Assembles y ds' s)
    (h : List.Forall₂ ModuleDeclaration.SameContent ds ds') :
    SameEnd (x.outcome s) (y.outcome s) := by
  obtain ⟨t, hst, hx⟩ := hx
  obtain ⟨u, hsu, hy⟩ := hy
  rw [hx, hy]
  refine assemble_of_agrees ?_ ⟨rfl, rfl⟩ (hst.records.trans hsu.records.symm)
  rw [List.forall₂_map_left_iff, List.forall₂_map_right_iff]
  exact h.imp fun _ _ => ModuleDeclaration.SameContent.agrees

theorem Assembles.sameUpToOrder (hx : Assembles x ds s) (hy : Assembles y ds' s)
    (h : ds.Perm ds') : SameUpToOrder (x.outcome s).1 (y.outcome s).1 := by
  obtain ⟨t, -, hx⟩ := hx
  obtain ⟨u, -, hy⟩ := hy
  rw [hx, hy]
  refine assemble_of_perm rfl (fun m hm => ?_) (h.map _)
  obtain ⟨d, -, rfl⟩ := List.mem_map.1 hm
  exact (ModuleDeclaration.SameContent.refl d).agrees

/-- A registry that is declared by a value and one that is put together by hand from the same names
and lists of permissions end alike. They come about just when the names are different, have the
scopes in order and declare what is listed for each. How often and in which order permissions are
listed for a module makes no difference, neither to the registry nor to the log. If the modules
are listed in another order, there is a registry just when there was one before, and the two
agree. -/
theorem declaration_means_content (ds : List ModuleDeclaration) (s : Session)
    (hds : ∀ d ∈ ds, d.Sound ∧ d.permissions ≠ []) :
    SameEnd ((ofValue (declaration ds)).outcome s) ((ofDomains ds).outcome s) ∧
    ((∃ r, ((ofValue (declaration ds)).outcome s).1 = .ok r) ↔ (ds.map (·.name)).Nodup) ∧
    (∀ r, ((ofValue (declaration ds)).outcome s).1 = .ok r → r.scopes = ds.map (·.name) ∧
      ∀ n p, (n, p) ∈ r.pairs ↔ ∃ d ∈ ds, d.name = n ∧ ∃ q ∈ d.permissions, some q = p) ∧
    (∀ ds', List.Forall₂ ModuleDeclaration.SameContent ds ds' →
      SameEnd ((ofValue (declaration ds)).outcome s) ((ofValue (declaration ds')).outcome s) ∧
      SameEnd ((ofDomains ds).outcome s) ((ofDomains ds').outcome s)) ∧
    ∀ ds', ds.Perm ds' →
      SameUpToOrder ((ofValue (declaration ds)).outcome s).1
        ((ofValue (declaration ds')).outcome s).1 ∧
      SameUpToOrder ((ofDomains ds).outcome s).1 ((ofDomains ds').outcome s).1 := by
  have hvalue := assembles_ofValue hds s
  have hhand := assembles_ofDomains ds s
  refine ⟨hvalue.sameEnd hhand (List.forall₂_same.2 fun d _ => .refl d), hvalue.ok_iff,
    fun r => hvalue.content, fun ds' h => ?_, fun ds' h => ?_⟩
  · have hds' := sound_of_sameContent h hds
    exact ⟨hvalue.sameEnd (assembles_ofValue hds' s) h, hhand.sameEnd (assembles_ofDomains ds' s) h⟩
  · have hds' : ∀ d' ∈ ds', d'.Sound ∧ d'.permissions ≠ [] := fun d' hd' => hds d' (h.mem_iff.2 hd')
    exact ⟨hvalue.sameUpToOrder (assembles_ofValue hds' s) h,
      hhand.sameUpToOrder (assembles_ofDomains ds' s) h⟩

/-- Two scopes with a permission in common, and permissions that come in another order or more than
once. -/
theorem declaration_means_content_repeated :
    let ds : List ModuleDeclaration := [⟨"user", ["WRITE", "READ", "WRITE"]⟩, ⟨"team", ["READ"]⟩]
    let ds' : List ModuleDeclaration := [⟨"user", ["READ", "WRITE"]⟩, ⟨"team", ["READ", "READ"]⟩]
    (∀ d ∈ ds, d.Sound ∧ d.permissions ≠ []) ∧
      List.Forall₂ ModuleDeclaration.SameContent ds ds' ∧ ds.Perm ds.reverse ∧
      (∃ r, ((ofValue (declaration ds)).outcome {}).1 = .ok r) ∧
      SameEnd ((ofValue (declaration ds)).outcome {}) ((ofDomains ds).outcome {}) ∧
      SameEnd ((ofValue (declaration ds)).outcome {}) ((ofValue (declaration ds')).outcome {}) ∧
      SameUpToOrder ((ofDomains ds).outcome {}).1 ((ofDomains ds.reverse).outcome {}).1 := by
  intro ds ds'
  have hds : ∀ d ∈ ds, d.Sound ∧ d.permissions ≠ [] := by
    have hpart : ∀ q ∈ ["user", "team", "READ", "WRITE"], Path.IsPart q := by
      unfold Path.IsPart
      decide
    simp only [ds, List.forall_mem_cons]
    exact ⟨⟨⟨hpart _ (by decide), fun q hq => hpart q (by revert q; decide)⟩, nofun⟩,
      ⟨⟨hpart _ (by decide), fun q hq => hpart q (by revert q; decide)⟩, nofun⟩, nofun⟩
  have hcontent : List.Forall₂ ModuleDeclaration.SameContent ds ds' :=
    .cons ⟨rfl, fun p => by simp; tauto⟩ (.cons ⟨rfl, fun p => by simp⟩ .nil)
  have hperm : ds.Perm ds.reverse := ds.reverse_perm.symm
  obtain ⟨hroutes, hok, -, hsame, horder⟩ := declaration_means_content ds {} hds
  exact ⟨hds, hcontent, hperm, hok.2 (by decide), hroutes, (hsame ds' hcontent).1,
    (horder _ hperm).2⟩

end Registry

end Clearance
