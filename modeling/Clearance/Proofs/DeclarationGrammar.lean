import Clearance.Declaration.Meaning
import Clearance.Proofs.Assembly
import Clearance.Proofs.DeclarationReading

/-!
# The grammar of declarations

A value declares a registry if it is a mapping that has nothing under `modules`, or a list of
values that each declare a module (`Value.DeclaresRegistry`). One declares a module if it is a
mapping with an identifier under `name` and a list of identifiers, which is not empty, under
`permissions` (`Value.DeclaresModule`). These are the values without issues
(`Value.registryIssues_eq_nil`), and what else stands in the mappings makes no difference
(`Value.pruned`).

A declared registry is put together after all of the declaration has been read
(`Registry.outcome_ofValue`), so that a value that declares none leaves nothing in the log.
-/

namespace Clearance

theorem Role.issues_eq_nil (role : Role) (place : List Step) (s : String) :
    role.issues place s = [] ↔ s ≠ "" ∧ Path.separator ∉ s.toList := by
  rw [issues, check]
  by_cases hs : s = ""
  · simp [hs]
  · by_cases hp : Path.separator ∈ s.toList <;> simp [hs, hp]

namespace Value

/-- The value is a text that may be declared as an identifier. -/
def IsIdentifier (v : Value) : Prop :=
  ∃ s, v.text? = some s ∧ s ≠ "" ∧ Path.separator ∉ s.toList

/-- The value is a mapping with an identifier for a name and a list of identifiers for permissions,
at least one. -/
def DeclaresModule (lists : List (List Value)) (v : Value) : Prop :=
  v.mapping?.isSome ∧ (∃ w, Context.under? v "name" = some w ∧ w.IsIdentifier) ∧
    ∃ w, Context.under? v "permissions" = some w ∧
      ∃ items, w.items? lists = some items ∧ items ≠ [] ∧ ∀ x ∈ items, x.IsIdentifier

/-- The value is a mapping with a list of declared modules, if there is something in its place. -/
def DeclaresRegistry (lists : List (List Value)) (v : Value) : Prop :=
  v.mapping?.isSome ∧ ∀ w, Context.under? v "modules" = some w →
    ∃ items, w.items? lists = some items ∧ ∀ x ∈ items, x.DeclaresModule lists

/-! ## What has no issues -/

variable {lists : List (List Value)}

theorem nameIssues_eq_nil (place : List Step) (v : Value) :
    v.nameIssues place = [] ↔ v.IsIdentifier := by
  rw [nameIssues, IsIdentifier]
  cases v.text? with
  | none => simp
  | some s => simp [Role.issues_eq_nil]

/-- A list has no issues just when it is one and no item has any. -/
theorem listIssues_eq_nil {issues : List Step → Value → List Issue} {P : Value → Prop}
    (h : ∀ place x, issues place x = [] ↔ P x) (place : List Step) (v : Value) :
    v.listIssues lists issues place = [] ↔
      ∃ items, v.items? lists = some items ∧ ∀ x ∈ items, P x := by
  rw [listIssues]
  cases v.items? lists with
  | none => simp
  | some items => exact (flatMap_zipIdx_eq_nil h place items).trans (by simp)

theorem isIdentifier_iff (place : List Step) (v : Value) :
    v.IsIdentifier ↔ v.text?.isSome ∧ Role.permission.issues place v.textOrEmpty = [] := by
  rw [IsIdentifier, textOrEmpty]
  cases v.text? with
  | none => simp
  | some s => simp [Role.issues_eq_nil]

theorem permissionsIssues_eq_nil (place : List Step) (v : Value) :
    v.permissionsIssues lists place = [] ↔
      ∃ items, v.items? lists = some items ∧ items ≠ [] ∧ ∀ x ∈ items, x.IsIdentifier := by
  rw [permissionsIssues]
  cases v.items? lists with
  | none => simp
  | some items =>
    cases items with
    | nil => simp
    | cons y ys =>
      have hi : (∃ items, some (y :: ys) = some items ∧ items ≠ [] ∧
          ∀ x ∈ items, x.IsIdentifier) ↔ ∀ x ∈ y :: ys, x.IsIdentifier := by simp
      rw [hi]
      dsimp only
      by_cases h : (y :: ys).all (·.text?.isSome)
      · rw [if_pos h, List.take_eq_nil_iff, List.flatMap_eq_nil_iff, List.forall_mem_map]
        exact ⟨fun hn x hx => (isIdentifier_iff place x).2
            ⟨List.all_eq_true.1 h x hx, hn.resolve_left Nat.one_ne_zero x hx⟩,
          fun hx => .inr fun x h => ((isIdentifier_iff place x).1 (hx x h)).2⟩
      · -- an item that is no text has an issue, and is no identifier
        rw [if_neg h, flatMap_zipIdx_eq_nil textIssues_eq_nil, ← List.all_eq_true]
        exact ⟨fun ht => absurd ht h, fun hx => absurd
          (List.all_eq_true.2 fun x h => ((isIdentifier_iff place x).1 (hx x h)).1) h⟩

/-- A field has no issues just when there is something in it, which has none. -/
theorem fieldIssues_eq_nil {issues : List Step → Value → List Issue} {P : Value → Prop}
    (h : ∀ place w, issues place w = [] ↔ P w) (name : String) (place : List Step) (v : Value) :
    v.fieldIssues issues name place = [] ↔ ∃ w, Context.under? v name = some w ∧ P w := by
  rw [fieldIssues]
  cases Context.under? v name with
  | none => simp
  | some w => simp [h]

theorem moduleIssues_eq_nil (place : List Step) (v : Value) :
    v.moduleIssues lists place = [] ↔ v.DeclaresModule lists := by
  rw [moduleIssues, DeclaresModule]
  cases v.mapping?.isSome with
  | false => simp
  | true =>
    simp only [if_true, List.append_eq_nil_iff, fieldIssues_eq_nil nameIssues_eq_nil,
      fieldIssues_eq_nil permissionsIssues_eq_nil, true_and]

/-- The values without issues are those that declare a registry. -/
theorem registryIssues_eq_nil (v : Value) :
    v.registryIssues lists = [] ↔ v.DeclaresRegistry lists := by
  rw [registryIssues, DeclaresRegistry]
  cases v.mapping?.isSome with
  | false => simp
  | true =>
    cases Context.under? v "modules" with
    | none => simp
    | some w => exact (listIssues_eq_nil moduleIssues_eq_nil _ w).trans (by simp)

/-! ## What makes no difference -/

/-- A mapping with only the entries under some names; anything else as it is. -/
def restricted (names : List String) : Value → Value
  | .mapping kind es => .mapping kind (es.filter fun e => names.any fun x => e.1.foundAs? == some x)
  | v => v

/-- A list of modules with nothing in them but what a declaration asks for; anything else as it
is. -/
def prunedModules (lists : List (List Value)) (v : Value) : Value :=
  match v.items? lists with
  | some items => .container .list (items.map (restricted ["name", "permissions"]))
  | none => v

/-- The declaration of a registry with nothing in it, nor in its modules, but what a declaration
asks for. -/
def pruned (lists : List (List Value)) (v : Value) : Value :=
  match v.restricted ["modules"] with
  | .mapping kind es => .mapping kind (es.map fun e => (e.1, prunedModules lists e.2))
  | v => v

section

variable {names : List String} {name : String}

/-- What is under one of the names stays there. -/
theorem under?_restricted (h : name ∈ names) (v : Value) :
    Context.under? (v.restricted names) name = Context.under? v name := by
  cases v with
  | mapping kind es =>
    have hb : Context.bound? name (es.filter fun e => names.any fun x => e.1.foundAs? == some x) =
        Context.bound? name es := by
      rw [Context.bound?, Context.bound?, List.find?_filter]
      congr 2
      funext e
      rw [Bool.eq_iff_iff]
      simp only [List.any_eq_true, beq_iff_eq, decide_eq_true_eq, and_iff_right_iff_imp]
      exact fun he => ⟨name, h, he⟩
    exact hb
  | _ => rfl

theorem isSome_mapping?_restricted (v : Value) :
    (v.restricted names).mapping?.isSome = v.mapping?.isSome := by
  cases v <;> rfl

theorem JsonIn.restricted {v : Value} (h : v.JsonIn lists) :
    (v.restricted names).JsonIn lists := by
  cases h with
  | table hkeys h =>
    exact .table (fun e he => hkeys e (List.mem_filter.1 he).1)
      fun e he => h e (List.mem_filter.1 he).1
  | list h => exact .list h
  | shared h => exact .shared h
  | _ => constructor

end

theorem moduleIssues_restricted (place : List Step) (v : Value) :
    (v.restricted ["name", "permissions"]).moduleIssues lists place =
      v.moduleIssues lists place := by
  rw [moduleIssues, moduleIssues, fieldIssues, fieldIssues, fieldIssues, fieldIssues,
    isSome_mapping?_restricted, under?_restricted (by simp), under?_restricted (by simp)]

theorem declaredModule_restricted (v : Value) :
    (v.restricted ["name", "permissions"]).declaredModule lists = v.declaredModule lists := by
  rw [declaredModule, declaredModule, under?_restricted (by simp), under?_restricted (by simp)]

theorem items?_prunedModules (v : Value) :
    (v.prunedModules lists).items? lists =
      (v.items? lists).map (List.map (restricted ["name", "permissions"])) := by
  rw [prunedModules]
  cases h : v.items? lists with
  | none => exact h
  | some items => rfl

theorem under?_pruned (v : Value) :
    Context.under? (v.pruned lists) "modules" =
      (Context.under? v "modules").map (prunedModules lists) := by
  rw [← under?_restricted (List.mem_singleton_self "modules") v, pruned]
  cases v.restricted ["modules"] with
  | mapping kind es =>
    show Context.bound? "modules" (es.map _) = (Context.bound? "modules" es).map _
    rw [Context.bound?, Context.bound?, List.find?_map, Option.map_map, Option.map_map]
    rfl
  | _ => rfl

theorem isSome_mapping?_pruned (v : Value) :
    (v.pruned lists).mapping?.isSome = v.mapping?.isSome := by
  cases v <;> rfl

theorem registryIssues_pruned (v : Value) :
    (v.pruned lists).registryIssues lists = v.registryIssues lists := by
  rw [registryIssues, registryIssues, isSome_mapping?_pruned, under?_pruned]
  cases Context.under? v "modules" with
  | none => rfl
  | some w =>
    have hw : (w.prunedModules lists).listIssues lists (moduleIssues lists) [.field "modules"] =
        w.listIssues lists (moduleIssues lists) [.field "modules"] := by
      rw [listIssues, listIssues, items?_prunedModules]
      cases w.items? lists with
      | none => rfl
      | some items =>
        simp only [Option.map_some, List.zipIdx_map, List.flatMap_map, Prod.map_snd, Prod.map_fst,
          id_eq, moduleIssues_restricted]
    simp only [Option.map_some, hw]

theorem declaredModules_pruned (v : Value) :
    (v.pruned lists).declaredModules lists = v.declaredModules lists := by
  rw [declaredModules, declaredModules, under?_pruned]
  cases Context.under? v "modules" with
  | none => rfl
  | some w =>
    simp only [Option.map_some, Option.bind_some, items?_prunedModules]
    cases w.items? lists with
    | none => rfl
    | some items => simp [declaredModule_restricted]

theorem JsonIn.prunedModules {v : Value} (h : v.JsonIn lists) :
    (v.prunedModules lists).JsonIn lists := by
  rw [Value.prunedModules]
  cases hi : v.items? lists with
  | none => exact h
  | some items =>
    refine .list fun x hx => ?_
    obtain ⟨y, hy, rfl⟩ := List.mem_map.1 hx
    exact (h.of_mem_items hi y hy).restricted

theorem JsonIn.pruned {v : Value} (h : v.JsonIn lists) : (v.pruned lists).JsonIn lists := by
  cases h with
  | table hkeys h =>
    refine .table (fun e he => ?_) fun e he => ?_
    · obtain ⟨e', he', rfl⟩ := List.mem_map.1 he
      exact hkeys e' (List.mem_filter.1 he').1
    · obtain ⟨e', he', rfl⟩ := List.mem_map.1 he
      exact (h e' (List.mem_filter.1 he').1).prunedModules
  | list h => exact .list h
  | shared h => exact .shared h
  | _ => constructor

end Value

/-! ## Declared registries -/

namespace Registry

variable {v : Value} {s : Session}

/-- All of a declaration in whatever form is read before anything is put together. -/
theorem outcome_accept {α : Type} {p : Payload α} {Ok : α → Prop} {view : α → Value} {x : α}
    (hp : p.Reflects s.lists Ok view) (hx : Ok x) :
    ∃ t, s.Looked t ∧ (p.accept .registry (p.readRegistry x) >>= ofDeclarations).outcome s =
      match (view x).registryIssues s.lists with
      | [] => (ofDeclarations ((view x).declaredModules s.lists)).outcome t
      | es => (.error (.rejected ⟨.registry, p.form, es⟩), t) := by
  obtain ⟨t, ht, hst⟩ := hp.reads_readRegistry hx rfl
  refine ⟨t, hst, ?_⟩
  rw [Run.outcome_bind, Payload.accept, Run.outcome_bind, ht]
  cases (view x).registryIssues s.lists <;> rfl

theorem outcome_ofValue (hv : v.JsonIn s.lists) :
    ∃ t, s.Looked t ∧ (ofValue v).outcome s =
      match v.registryIssues s.lists with
      | [] => (ofDeclarations (v.declaredModules s.lists)).outcome t
      | es => (.error (.rejected ⟨.registry, .value, es⟩), t) :=
  outcome_accept (Payload.reflects_value s.lists) hv

/-- A value of the shape of a document is refused as a declaration just when it is none of the
grammar. It is refused with its issues in order, after nothing but looks, so that no module has been
registered by then. A value of the grammar is looked at, and then the modules that it declares
are put together. What it has under other names than those of the grammar makes no difference. -/
theorem ofValue_grammar (v : Value) (s : Session) (hv : v.JsonIn s.lists) :
    ((∃ e, ((ofValue v).outcome s).1 = .error (.rejected e)) ↔ ¬ v.DeclaresRegistry s.lists) ∧
    (∀ e t, (ofValue v).outcome s = (.error (.rejected e), t) →
      e = ⟨.registry, .value, v.registryIssues s.lists⟩ ∧ s.Looked t) ∧
    (v.DeclaresRegistry s.lists → ∃ t, s.Looked t ∧
      (ofValue v).outcome s = (ofDeclarations (v.declaredModules s.lists)).outcome t) ∧
    ((ofValue (v.pruned s.lists)).outcome s).1 = ((ofValue v).outcome s).1 := by
  obtain ⟨t, hst, ht⟩ := outcome_ofValue hv
  obtain ⟨u, hsu, hu⟩ := outcome_ofValue hv.pruned
  rw [Value.registryIssues_pruned, Value.declaredModules_pruned] at hu
  rw [← Value.registryIssues_eq_nil, ht, hu]
  cases v.registryIssues s.lists with
  | nil =>
    -- there is nothing to refuse, and putting modules together does not refuse declarations
    have hne : ∀ e, ((ofDeclarations (v.declaredModules s.lists)).outcome t).1 ≠
        .error (.rejected e) := by
      intro e he
      obtain ⟨m, -, hm⟩ := error_of_assemble he
      cases hm
    refine ⟨⟨fun ⟨e, he⟩ => absurd he (hne e), fun h => absurd rfl h⟩, fun e u h => ?_,
      fun _ => ⟨t, hst, rfl⟩, assemble_result _ _ u t⟩
    exact absurd (congrArg Prod.fst h) (hne e)
  | cons issue issues =>
    refine ⟨⟨fun _ => nofun, fun _ => ⟨_, rfl⟩⟩, fun e u h => ?_, nofun, rfl⟩
    cases h
    exact ⟨rfl, hst⟩

/-- Three items that are no declared modules, one of them no mapping, beside something that is not
asked for. -/
theorem ofValue_grammar_issues :
    let v : Value := .mapping .table
      [(.text "other", .int 0), (.text "modules", .container .list
        [.mapping .table [(.text "permissions", .container .list
            [.text "READ", .int 1, .text "x.y", .null]), (.text "name", .text "a.b")],
          .bool true,
          .mapping .table [(.text "permissions", .container .list [.text "READ", .text "",
            .text "x.y"])]])]
    v.JsonIn [] ∧
      ((ofValue v).outcome {}).1 = .error (.rejected ⟨.registry, .value,
        [⟨[.field "modules", .index 0, .field "name"], .badIdentifier (.separated .scope "a.b")⟩,
          ⟨[.field "modules", .index 0, .field "permissions", .index 1], .notText⟩,
          ⟨[.field "modules", .index 0, .field "permissions", .index 3], .notText⟩,
          ⟨[.field "modules", .index 1], .notRecord .module⟩,
          ⟨[.field "modules", .index 2, .field "name"], .missing⟩,
          ⟨[.field "modules", .index 2, .field "permissions"],
            .badIdentifier (.empty .permission)⟩]⟩) := by
  intro v
  have hv : v.JsonIn [] := by
    refine .table (by simp) ?_
    simp only [List.forall_mem_cons]
    refine ⟨.int 0, .list ?_, nofun⟩
    simp only [List.forall_mem_cons]
    refine ⟨.table (by simp) ?_, .bool true, .table (by simp) ?_, nofun⟩
    · simp only [List.forall_mem_cons]
      refine ⟨.list ?_, .text _, nofun⟩
      simp only [List.forall_mem_cons]
      exact ⟨.text _, .int 1, .text _, .null, nofun⟩
    · simp only [List.forall_mem_cons]
      refine ⟨.list ?_, nofun⟩
      simp only [List.forall_mem_cons]
      exact ⟨.text _, .text _, .text _, nofun⟩
  obtain ⟨hrefused, hissues, -, -⟩ := ofValue_grammar v {} hv
  have hn : v.registryIssues [] ≠ [] := by decide
  obtain ⟨e, he⟩ := hrefused.2 fun h => hn (v.registryIssues_eq_nil.2 h)
  have hlist : e = ⟨.registry, .value, v.registryIssues []⟩ := (hissues e _ (Prod.ext he rfl)).1
  refine ⟨hv, ?_⟩
  rw [he, hlist]
  rfl

end Registry

end Clearance
