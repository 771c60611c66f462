import Clearance.Proofs.DeclarationGrammar
import Clearance.Proofs.Noninterference

/-!
# Declared contexts

A value declares a context if it is a mapping with a text for each key, and under each of them null
or a list of texts (`Value.DeclaresContext`). These are the values without issues
(`Value.contextIssues_eq_nil`): there is one for what is under a key and neither null nor a list,
and one for each item of a list that is no text, in the order of the payload.

What is under a scope stands for its grants in the payload and in the declared context alike
(`Value.StandsFor`), though it is a list in the one and a tuple in the other. So looking a scope up
finds what was declared for it in both of them (`ContextDeclaration.found`), and no evaluation tells
them apart. A declared context is itself read into what it was made from, so that nothing is lost by
declaring it again (`Context.ofValue_keeps_meaning`).
-/

namespace Clearance

namespace Value

/-! ## Issues of contexts -/

/-- The entries of a mapping, none of anything else. -/
def bindings (v : Value) : List (Value × Value) :=
  (v.mapping?.map Prod.snd).getD []

/-- The mapping that has for each item a value under a text. -/
def mappingOf {ι : Type} (kind : MappingKind) (key : ι → String) (val : ι → Value) (xs : List ι) :
    Value :=
  .mapping kind (xs.map fun e => (.text (key e), val e))

variable (lists : List (List Value))

/-- The issues of what is under a scope: none if it is null, or else those of a list of texts. -/
def grantsIssues (place : List Step) : Value → List Issue
  | .null => []
  | v => v.listIssues lists textIssues place

/-- The issues of a context: those of what is under its scopes in order. -/
def contextIssues (v : Value) : List Issue :=
  if v.mapping?.isSome then
    v.bindings.flatMap fun e => e.2.grantsIssues lists [.field e.1.textOrEmpty]
  else [⟨[], .notTable⟩]

/-- The grants that are declared, if there are some. -/
def declaredGrants : Value → Option (List String)
  | .null => none
  | v => some (((v.items? lists).getD []).map textOrEmpty)

/-- The grants that are declared, scope by scope. -/
def declaredContext (v : Value) : ContextDeclaration :=
  v.bindings.map fun e => (e.1.textOrEmpty, e.2.declaredGrants lists)

/-- The value is null or a list of texts. -/
def DeclaresGrants (v : Value) : Prop :=
  v = .null ∨ ∃ items, v.items? lists = some items ∧ ∀ x ∈ items, x.text?.isSome

/-- The value is a mapping with texts for keys, and under each of them null or a list of texts. -/
def DeclaresContext (v : Value) : Prop :=
  v.mapping?.isSome ∧ ∀ e ∈ v.bindings, e.1.text?.isSome ∧ e.2.DeclaresGrants lists

variable {lists} {v : Value}

theorem map_textOrEmpty (gs : List String) : (gs.map Value.text).map textOrEmpty = gs := by
  rw [List.map_map]
  exact List.map_id gs

theorem grantsIssues_of_ne_null (h : v ≠ .null) (place : List Step) :
    v.grantsIssues lists place = v.listIssues lists textIssues place := by
  cases v with
  | null => exact absurd rfl h
  | _ => rfl

theorem declaredGrants_of_ne_null (h : v ≠ .null) :
    v.declaredGrants lists = some (((v.items? lists).getD []).map textOrEmpty) := by
  cases v with
  | null => exact absurd rfl h
  | _ => rfl

theorem grantsIssues_eq_nil (place : List Step) (v : Value) :
    v.grantsIssues lists place = [] ↔ v.DeclaresGrants lists := by
  by_cases hn : v = .null
  · subst hn
    exact ⟨fun _ => .inl rfl, fun _ => rfl⟩
  · rw [grantsIssues_of_ne_null hn, listIssues_eq_nil textIssues_eq_nil, DeclaresGrants,
      or_iff_right hn]

theorem JsonIn.text_of_mem_bindings (h : v.JsonIn lists) {e : Value × Value} (he : e ∈ v.bindings) :
    ∃ k, e.1 = .text k := by
  cases h with
  | table hkeys _ => exact hkeys e he
  | _ => cases he

theorem JsonIn.of_mem_bindings (h : v.JsonIn lists) {e : Value × Value} (he : e ∈ v.bindings) :
    e.2.JsonIn lists := by
  cases h with
  | table _ h => exact h e he
  | _ => cases he

theorem JsonIn.eq_mappingOf (h : v.JsonIn lists) (hm : v.mapping?.isSome) :
    v = mappingOf .table (fun e => e.1.textOrEmpty) Prod.snd v.bindings := by
  cases h with
  | @table es hkeys _ =>
    have hes : es = es.map fun e => (.text e.1.textOrEmpty, e.2) := by
      refine (List.map_id es).symm.trans (List.map_congr_left fun e he => ?_)
      obtain ⟨k, hk⟩ := hkeys e he
      obtain ⟨key, w⟩ := e
      obtain rfl : key = .text k := hk
      rfl
    exact congrArg (Value.mapping .table) hes
  | _ => cases hm

/-- The values without issues are those that declare a context. -/
theorem contextIssues_eq_nil (h : v.JsonIn lists) :
    v.contextIssues lists = [] ↔ v.DeclaresContext lists := by
  have hkeys : ∀ e ∈ v.bindings, e.1.text?.isSome := by
    intro e he
    obtain ⟨k, hk⟩ := h.text_of_mem_bindings he
    rw [hk]
    rfl
  rw [contextIssues, DeclaresContext]
  cases v.mapping?.isSome with
  | false => simp
  | true =>
    simp only [if_true, List.flatMap_eq_nil_iff, grantsIssues_eq_nil, true_and]
    exact ⟨fun hg e he => ⟨hkeys e he, hg e he⟩, fun hg e he => (hg e he).2⟩

end Value

/-! ## Readings -/

/-- What has no scope for its own yet gets the scope for a new one at its end. -/
theorem ContextDeclaration.bind_of_not_mem {x : String} {gs : Option (List String)}
    {d : ContextDeclaration} (h : x ∉ d.map Prod.fst) : bind x gs d = d ++ [(x, gs)] := by
  induction d with
  | nil => rfl
  | cons e d ih =>
    obtain ⟨hne, hd⟩ := not_or.1 (mt List.mem_cons.2 h)
    rw [bind, if_neg fun he => hne he.symm, ih hd]
    rfl

theorem ContextDeclaration.foldl_bind_append {c d : ContextDeclaration}
    (h : ((c ++ d).map Prod.fst).Nodup) :
    d.foldl (fun c e => bind e.1 e.2 c) c = c ++ d := by
  induction d generalizing c with
  | nil => exact (List.append_nil c).symm
  | cons e d ih =>
    have he : e.1 ∉ c.map Prod.fst := by
      rw [List.map_append, List.nodup_append] at h
      exact fun hc => h.2.2 e.1 hc e.1 List.mem_cons_self rfl
    rw [List.append_cons] at h
    rw [List.foldl_cons, bind_of_not_mem he, ih h, ← List.append_cons]

/-- Scopes that are given once each stay as they are. -/
theorem ContextDeclaration.foldl_bind {d : ContextDeclaration} (h : (d.map Prod.fst).Nodup) :
    d.foldl (fun c e => bind e.1 e.2 c) [] = d :=
  foldl_bind_append (c := []) h

namespace Payload

open Value

variable {s : Session} {lists : List (List Value)} {v : Value}

/-- Null is read into no grants, and anything else as a list of texts. -/
theorem reads_readGrants (hv : v.JsonIn lists) (place : List Step) (hs : s.lists = lists) :
    (Payload.value.readGrants place v).Reads s
      (.ofIssues (v.grantsIssues lists place) (v.declaredGrants lists)) := by
  by_cases hn : v = .null
  · subst hn
    exact .pure _
  · have hnull : Payload.value.isNull v = false := by
      cases v with
      | null => exact absurd rfl hn
      | _ => rfl
    rw [readGrants, hnull, grantsIssues_of_ne_null hn, declaredGrants_of_ne_null hn,
      ← Checked.map_ofIssues]
    exact ((reflects_value lists).reads_readTexts hv place hs).bind fun _ _ => .pure _

/-- The grants of a declared context are read into what they were made from. -/
theorem reads_readGrants_grantsValue (place : List Step) (gs : Option (List String)) :
    (Payload.value.readGrants place (grantsValue gs)).Reads s (.ok gs) := by
  cases gs with
  | none => exact .pure _
  | some gs =>
    let texts : List Value := gs.map .text
    let heard : Nat → Value → Checked String := fun _ x => .ok x.textOrEmpty
    let read : Nat → Value → Run (Checked String) :=
      fun i x => Payload.value.readText (place ++ [.index i]) x
    have hturn : ∀ t : Session, (Run.inTurn read 0 texts).Reads t
        (texts.zipIdx.map fun y => heard y.2 y.1) := by
      refine fun t => Run.reads_inTurn fun i x hx u _ => ?_
      obtain ⟨g, -, rfl⟩ := List.mem_map.1 hx
      exact .pure _
    have hall : Checked.all (texts.zipIdx.map fun y => heard y.2 y.1) = .ok gs :=
      calc Checked.all (texts.zipIdx.map fun y => heard y.2 y.1)
        _ = .ofIssues (texts.zipIdx.flatMap fun _ => [])
              (texts.zipIdx.map fun y => y.1.textOrEmpty) := Checked.all_ofIssues (fun _ => []) _ _
        _ = .ok ((texts.zipIdx.map Prod.fst).map textOrEmpty) := by
          rw [List.flatMap_eq_nil_iff.2 fun _ _ => rfl, List.map_map]
          rfl
        _ = .ok gs := by rw [List.zipIdx_map_fst, map_textOrEmpty]
    have htexts : (Payload.value.readTexts place (grantsValue (some gs))).Reads s (.ok gs) :=
      ((((Run.reads_record _ _).bind fun t _ => (hturn t).map Visit.complete).map some).bind
        fun _ _ => hall ▸ .pure _)
    exact htexts.bind fun _ _ => .pure _

theorem reads_entries (kind : MappingKind) (es : List (Value × Value)) :
    (Payload.value.entries (.mapping kind es)).Reads s
      (es.map fun e => (⟨e.1.place, e.1.declaredText⟩, e.2)) := by
  have hlook : ∀ (v : Value) (fs : List (Value × Value)) (s : Session),
      (fs.forM fun e => Run.record (.look v (.entry e.1))).Reads s () := by
    intro v fs
    induction fs with
    | nil => exact fun _ => .pure _
    | cons f fs ih => exact fun s => (Run.reads_record v _).bind fun t _ => ih t
  exact (Run.reads_record _ _).bind fun t _ => (hlook _ es t).bind fun _ _ => .pure _

section

variable {ι : Type} {key : ι → String} {val : ι → Value} {issues : ι → List Issue}
  {declared : ι → Option (List String)} {xs : List ι}

theorem reads_readEntries
    (h : ∀ e ∈ xs, ∀ t : Session, t.lists = s.lists →
      (Payload.value.readGrants [.field (key e)] (val e)).Reads t
        (.ofIssues (issues e) (declared e))) :
    (Payload.value.readEntries
      (xs.map fun e => (⟨.field (key e), return .ok (key e)⟩, val e))).Reads s
      (xs.map fun e => .ofIssues (issues e) (key e, declared e)) := by
  induction xs generalizing s with
  | nil => exact .pure _
  | cons e es ih =>
    obtain ⟨he, hes⟩ := List.forall_mem_cons.1 h
    refine (Run.Reads.pure _).bind fun t ht => (he t ht).bind fun u hu => ?_
    refine (ih fun e he' w hw => hes e he' w (hw.trans (hu.trans ht))).bind fun w _ => ?_
    have hpair := Checked.pair_ofIssues [] (issues e) (key e) (declared e)
    exact hpair ▸ .pure _

/-- A mapping is read into what is read under each of its keys, with the issues of all of them. -/
theorem reads_readContext (kind : MappingKind)
    (h : ∀ e ∈ xs, ∀ t : Session, t.lists = s.lists →
      (Payload.value.readGrants [.field (key e)] (val e)).Reads t
        (.ofIssues (issues e) (declared e))) :
    (Payload.value.readContext (mappingOf kind key val xs)).Reads s
      (.ofIssues (xs.flatMap issues) ((xs.map fun e => (key e, declared e)).foldl
        (fun c e => ContextDeclaration.bind e.1 e.2 c) [])) := by
  refine (reads_entries kind _).bind fun t ht => ?_
  rw [List.map_map]
  refine (reads_readEntries fun e he u hu => h e he u (hu.trans ht)).bind fun _ _ => ?_
  rw [Checked.all_ofIssues, Checked.map_ofIssues]
  exact .pure _

end

/-- A payload of the shape of a document is read into what is declared for its scopes. -/
theorem reads_readContext_of_json (hv : v.JsonIn lists) (hs : s.lists = lists)
    (hk : ((v.declaredContext lists).map Prod.fst).Nodup) :
    (Payload.value.readContext v).Reads s
      (.ofIssues (v.contextIssues lists) (v.declaredContext lists)) := by
  by_cases hm : v.mapping?.isSome
  · have hreads := reads_readContext (s := s) .table fun e (he : e ∈ v.bindings) t ht =>
      reads_readGrants (hv.of_mem_bindings he) [.field e.1.textOrEmpty] (ht.trans hs)
    rw [← hv.eq_mappingOf hm] at hreads
    rw [contextIssues, if_pos hm]
    exact (ContextDeclaration.foldl_bind hk).symm ▸ hreads
  · have hmapping : ¬ Payload.value.isMapping v = true := hm
    rw [contextIssues, if_neg hm, readContext, if_neg hmapping]
    exact .pure _

/-- A declared context is read into what it was made from. -/
theorem reads_readContext_toContext {d : ContextDeclaration} (h : (d.map Prod.fst).Nodup) :
    (Payload.value.readContext d.toContext).Reads s (.ok d) := by
  have hreads : (Payload.value.readContext d.toContext).Reads s (.ofIssues (d.flatMap fun _ => [])
      ((d.map fun e => (e.1, e.2)).foldl (fun c e => ContextDeclaration.bind e.1 e.2 c) [])) :=
    reads_readContext .view fun e _ _ _ => reads_readGrants_grantsValue [.field e.1] e.2
  rw [List.flatMap_eq_nil_iff.2 fun _ _ => rfl, List.map_id', ContextDeclaration.foldl_bind h]
    at hreads
  exact hreads

end Payload

/-! ## Lookups -/

/-- What is found for a scope whose grants are declared. -/
def Lookup.ofGrants : Option (List String) → Lookup
  | none => ⟨.noGrant, []⟩
  | some gs => ⟨.granted, gs.map .text⟩

/-- What is found for the scope if it is looked up in what is declared. -/
def ContextDeclaration.found (d : ContextDeclaration) (x : String) : Lookup :=
  ((d.find? fun e => e.1 == x).map fun e => Lookup.ofGrants e.2).getD ⟨.absent, []⟩

/-- The value stands for the grants where the shared lists are as they are in `lists`: it is null if
there are none, or else a container or a shared list of the texts. -/
inductive Value.StandsFor (lists : List (List Value)) : Option (List String) → Value → Prop
  | null : StandsFor lists none .null
  | container (kind : ContainerKind) (gs : List String) :
    StandsFor lists (some gs) (.container kind (gs.map .text))
  | shared {id : Nat} {gs : List String} (h : (lists[id]?).getD [] = gs.map .text) :
    StandsFor lists (some gs) (.shared id)

namespace Value

variable {lists : List (List Value)} {v : Value} {u : Session} {gs : Option (List String)}

theorem JsonIn.eq_text (h : v.JsonIn lists) (ht : v.text?.isSome) : v = .text v.textOrEmpty := by
  cases h with
  | text s => rfl
  | _ => cases ht

/-- What declares grants stands for them. -/
theorem DeclaresGrants.standsFor (h : v.DeclaresGrants lists) (hv : v.JsonIn lists) :
    v.StandsFor lists (v.declaredGrants lists) := by
  rcases h with rfl | ⟨items, hi, ht⟩
  · exact .null
  · obtain ⟨gs, rfl⟩ : ∃ gs : List String, items = gs.map .text := by
      refine ⟨items.map textOrEmpty, ?_⟩
      rw [List.map_map]
      refine (List.map_id items).symm.trans (List.map_congr_left fun x hx => ?_)
      exact (hv.of_mem_items hi x hx).eq_text (ht x hx)
    have hgs : v.declaredGrants lists = some gs := by
      have hn : v ≠ .null := by
        rintro rfl
        cases hi
      rw [declaredGrants_of_ne_null hn, hi, Option.getD_some, map_textOrEmpty]
    rw [hgs]
    unfold items? at hi
    split at hi
    · cases hi
      exact .container .list gs
    · exact .shared (Option.some.inj hi)
    · cases hi

theorem standsFor_grantsValue (gs : Option (List String)) :
    (grantsValue gs).StandsFor lists gs := by
  cases gs with
  | none => exact .null
  | some gs => exact .container .tuple gs

/-- What stands for grants is no source. -/
theorem StandsFor.source?_eq (h : v.StandsFor lists gs) : v.source? = none := by
  cases h <;> rfl

/-- A scope is looked up to what is stood for under it. -/
theorem StandsFor.stateIn_eq {c : Value} {x : String} (h : v.StandsFor lists gs)
    (hu : u.lists = lists) (hc : Context.under? c x = some v) :
    Context.stateIn c u x = .ok (.ofGrants gs) := by
  subst hu
  have hgranted : ∀ (items : List Value) (gs : List String), items = gs.map .text →
      ((Handling.identifying u.lists).gather ⟨items, none⟩).map (Lookup.mk .granted) =
        .ok (.ofGrants (some gs)) := by
    rintro _ gs rfl
    rw [Identifier.map_text, Identifier.gather_toValue _ (Identifier.result_identifying u.lists),
      ← Identifier.map_text]
    rfl
  rw [Context.stateIn, hc]
  cases h with
  | null => rfl
  | container kind gs => exact hgranted _ gs rfl
  | shared h => exact hgranted _ _ h

end Value

namespace Context

open Value

variable {ι : Type} {key : ι → String} {val : ι → Value} {declared : ι → Option (List String)}
  {xs : List ι} {lists : List (List Value)}

theorem under?_mappingOf (kind : MappingKind) (x : String) :
    under? (mappingOf kind key val xs) x = (xs.find? fun e => key e == x).map val := by
  show bound? x (xs.map fun e => (.text (key e), val e)) = _
  rw [bound?, List.find?_map, Option.map_map]
  rfl

/-- Where every value stands for the grants that are declared, a look finds what is declared. -/
theorem stateIn_mappingOf (kind : MappingKind)
    (h : ∀ e ∈ xs, (val e).StandsFor lists (declared e)) {u : Session} (hu : u.lists = lists)
    (x : String) :
    stateIn (mappingOf kind key val xs) u x =
      .ok (ContextDeclaration.found (xs.map fun e => (key e, declared e)) x) := by
  have hunder := @under?_mappingOf ι key val xs kind x
  rw [ContextDeclaration.found, List.find?_map]
  simp only [Function.comp_def]
  cases hf : xs.find? fun e => key e == x with
  | none =>
    rw [hf] at hunder
    rw [stateIn, hunder]
    rfl
  | some e =>
    rw [hf] at hunder
    exact (h e (List.mem_of_find?_eq_some hf)).stateIn_eq hu hunder

/-- No source is under a scope there. -/
theorem source?_mappingOf (kind : MappingKind)
    (h : ∀ e ∈ xs, (val e).StandsFor lists (declared e)) (x : String) :
    source? (mappingOf kind key val xs) x = none := by
  rw [source?, under?_mappingOf]
  cases hf : xs.find? fun e => key e == x with
  | none => rfl
  | some e => exact (h e (List.mem_of_find?_eq_some hf)).source?_eq

/-- A payload that declares a context is looked up to what it declares, and there is no source in
it. -/
theorem stateIn_of_declares {v : Value} (hv : v.JsonIn lists) (h : v.DeclaresContext lists) :
    (∀ (x : String) (u : Session), u.lists = lists →
      stateIn v u x = .ok ((v.declaredContext lists).found x)) ∧
    ∀ x, source? v x = none := by
  have hstands : ∀ e ∈ v.bindings, e.2.StandsFor lists (e.2.declaredGrants lists) :=
    fun e he => (h.2 e he).2.standsFor (hv.of_mem_bindings he)
  have heq := hv.eq_mappingOf h.1
  constructor
  · intro x u hu
    have hstate := @stateIn_mappingOf _ (fun e => e.1.textOrEmpty) _ _ _ _ .table hstands _ hu x
    rwa [← heq] at hstate
  · have hsource := @source?_mappingOf _ (fun e => e.1.textOrEmpty) _ _ _ _ .table hstands
    rwa [← heq] at hsource

/-- A declared context is looked up to what it was made from, and there is no source in it. -/
theorem stateIn_toContext (d : ContextDeclaration) :
    (∀ (x : String) (u : Session), stateIn d.toContext u x = .ok (d.found x)) ∧
    ∀ x, source? d.toContext x = none := by
  have hstands : ∀ lists, ∀ e ∈ d, (grantsValue e.2).StandsFor lists e.2 :=
    fun _ e _ => standsFor_grantsValue e.2
  constructor
  · intro x u
    have hstate := @stateIn_mappingOf _ Prod.fst _ _ _ _ .view (hstands u.lists) _ rfl x
    rwa [List.map_id'] at hstate
  · exact @source?_mappingOf _ Prod.fst _ _ _ _ .view (hstands [])

end Context

/-- What is declared can be a key. -/
theorem ContextDeclaration.fixed_found (d : ContextDeclaration) (x : String) :
    ∀ v ∈ (d.found x).grants, v.changeable? = none := by
  have hgrants : ∀ gs, ∀ v ∈ (Lookup.ofGrants gs).grants, v.changeable? = none := by
    intro gs v hv
    cases gs with
    | none => cases hv
    | some gs =>
      obtain ⟨g, -, rfl⟩ := List.mem_map.1 hv
      rfl
  rw [found]
  cases d.find? fun e => e.1 == x with
  | none => exact fun v hv => absurd hv List.not_mem_nil
  | some e => exact hgrants e.2

/-- Its scope is looked up alike in both contexts, and the grants can be keys. -/
def Context.FoundAlike (c c' : Value) (u : Session) (x : String) : Prop :=
  ∃ l, stateIn c u x = .ok l ∧ stateIn c' u x = .ok l ∧ ∀ v ∈ l.grants, v.changeable? = none

/-- A leaf answers alike on two mappings in which its scope is looked up alike. -/
theorem Leaf.answerIn_of_foundAlike {l : Leaf} {c c' : Value} {u : Session}
    (hc : c.mapping?.isSome) (hc' : c'.mapping?.isSome) (h : ∀ x, Context.FoundAlike c c' u x) :
    ∃ b, l.answerIn c u = .ok b ∧ l.answerIn c' u = .ok b := by
  rw [answerIn, if_pos hc, answerIn, if_pos hc', answer, answer]
  rcases l.scope with _ | x
  · exact ⟨false, rfl, rfl⟩
  rcases l.permission with _ | q
  · exact ⟨false, rfl, rfl⟩
  obtain ⟨k, hk, hk', hfixed⟩ := h x
  have hoffer : ∀ c : Value, Context.stateIn c u x = .ok k → Context.offer c u x = k.granted? := by
    intro c hc
    rw [Context.offer, hc]
    rfl
  dsimp only
  rw [hoffer c hk, hoffer c' hk', Lookup.granted?_of_fixed hfixed]
  exact ⟨_, rfl, rfl⟩

/-- On two mappings without sources under their scopes a plain tree has the same answer if every
scope is looked up alike in both of them. -/
theorem Predicate.call_of_foundAlike {p : Predicate} (hp : p.Plain) {c c' : Value} {u : Session}
    (hc : c.mapping?.isSome) (hc' : c'.mapping?.isSome) (hs : ∀ x, Context.source? c x = none)
    (hs' : ∀ x, Context.source? c' x = none) (h : ∀ x, Context.FoundAlike c c' u x) :
    ∃ b, ((p.call c).outcome u).1 = .ok (.bool b) ∧ ((p.call c').outcome u).1 = .ok (.bool b) := by
  obtain ⟨b, hb, hb'⟩ : ∃ b, p.verdict (Atom.answerIn c u) = .ok b ∧
      p.verdict (Atom.answerIn c' u) = .ok b := by
    refine verdict_alike fun a ha => ?_
    obtain ⟨l, rfl⟩ := hp a ha
    exact Leaf.answerIn_of_foundAlike hc hc' h
  have hcall : ∀ c : Value, (∀ x, Context.source? c x = none) →
      ((p.call c).outcome u).1 = (p.verdict (Atom.answerIn c u)).map .bool := by
    intro c hs
    have hunshared : Context.Unshared c p.scopes := by
      intro x _ _ _ _ id hx
      rw [hs x] at hx
      cases hx
    rw [hp.call_eq_evaluate, Run.outcome_map, evaluate_plain hp hunshared]
  exact ⟨b, by rw [hcall c hs, hb]; rfl, by rw [hcall c' hs', hb']; rfl⟩

/-! ## What a declaration keeps -/

namespace Context

variable {v : Value} {s : Session}

/-- What is read is declared, or else refused with its issues. -/
theorem outcome_ofValue {r : Checked ContextDeclaration}
    (h : (Payload.value.readContext v).Reads s r) :
    ∃ t, s.Looked t ∧ (ofValue v).outcome s =
      ((r.map ContextDeclaration.toContext).mapError fun es => .rejected ⟨.context, .value, es⟩,
        t) := by
  obtain ⟨t, ht, hst⟩ := h
  refine ⟨t, hst, ?_⟩
  rw [ofValue, Run.outcome_bind, Payload.accept, Run.outcome_bind, ht]
  cases r <;> rfl

/-- Let a payload of the shape of a document have each key once. It declares a context just when it
is a mapping with null or a list of texts under each of them, and otherwise it is refused with its
issues in order; either way it is only looked at. In the context that it declares every scope is
looked up as in the payload itself, as long as the shared lists are what they were, so that no plain
tree tells them apart. Declared again the context comes to itself. -/
theorem ofValue_keeps_meaning (v : Value) (s : Session) (hv : v.JsonIn s.lists)
    (hk : (v.bindings.map fun e => e.1.textOrEmpty).Nodup) :
    let answer := ((ofValue v).outcome s).1
    s.Looked ((ofValue v).outcome s).2 ∧
    ((∃ c, answer = .ok c) ↔ v.DeclaresContext s.lists) ∧
    (¬ v.DeclaresContext s.lists →
      answer = .error (.rejected ⟨.context, .value, v.contextIssues s.lists⟩)) ∧
    ∀ c, answer = .ok c →
      (∀ (x : String) (u : Session), u.lists = s.lists →
        ∃ l, ((lookup c x).outcome u).1 = .ok l ∧ ((lookup v x).outcome u).1 = .ok l) ∧
      (∀ p : Predicate, p.Plain → ∀ u : Session, u.lists = s.lists →
        ∃ b, ((p.call c).outcome u).1 = .ok (.bool b) ∧
          ((p.call v).outcome u).1 = .ok (.bool b)) ∧
      ∀ u : Session, ((ofValue c).outcome u).1 = .ok c := by
  intro answer
  have hk' : ((v.declaredContext s.lists).map Prod.fst).Nodup := by
    rwa [Value.declaredContext, List.map_map]
  obtain ⟨t, hst, ht⟩ := outcome_ofValue (Payload.reads_readContext_of_json hv rfl hk')
  have hanswer : answer = _ := congrArg Prod.fst ht
  rw [ht, hanswer, ← Value.contextIssues_eq_nil hv]
  refine ⟨hst, ?_⟩
  dsimp only
  cases hi : v.contextIssues s.lists with
  | cons e es => exact ⟨⟨nofun, nofun⟩, fun _ => rfl, nofun⟩
  | nil =>
    refine ⟨⟨fun _ => rfl, fun _ => ⟨_, rfl⟩⟩, fun h => absurd rfl h, fun c hc => ?_⟩
    obtain rfl : (v.declaredContext s.lists).toContext = c := Except.ok.inj hc
    have hdeclares := (Value.contextIssues_eq_nil hv).1 hi
    obtain ⟨hstate, hsource⟩ := stateIn_of_declares hv hdeclares
    obtain ⟨hstate', hsource'⟩ := stateIn_toContext (v.declaredContext s.lists)
    refine ⟨fun x u hu => ?_, fun p hp u hu => ?_, fun u => ?_⟩
    · exact ⟨(v.declaredContext s.lists).found x, (outcome_lookup rfl u x).trans (hstate' x u),
        (outcome_lookup hdeclares.1 u x).trans (hstate x u hu)⟩
    · exact Predicate.call_of_foundAlike hp rfl hdeclares.1 hsource' hsource
        fun x => ⟨_, hstate' x u, hstate x u hu, ContextDeclaration.fixed_found _ x⟩
    · obtain ⟨t, -, ht⟩ := outcome_ofValue (Payload.reads_readContext_toContext hk' (s := u))
      rw [ht]
      rfl

/-- The grants of one scope are in a shared list, those of another one are none, and the third has
null under it. -/
theorem ofValue_keeps_meaning_shared :
    let v : Value := .mapping .table [(.text "user", .shared 0), (.text "team", .null),
      (.text "lab", .container .list [])]
    let s : Session := { lists := [[.text "READ", .text "WRITE"]] }
    v.JsonIn s.lists ∧ (v.bindings.map fun e => e.1.textOrEmpty).Nodup ∧
      ∃ c, ((ofValue v).outcome s).1 = .ok c ∧
        ((lookup c "user").outcome s).1 = .ok ⟨.granted, [.text "READ", .text "WRITE"]⟩ ∧
        ((lookup c "team").outcome s).1 = .ok ⟨.noGrant, []⟩ ∧
        ((lookup c "lab").outcome s).1 = .ok ⟨.granted, []⟩ ∧
        ((lookup c "support").outcome s).1 = .ok ⟨.absent, []⟩ ∧
        ((ofValue c).outcome s).1 = .ok c := by
  intro v s
  have hv : v.JsonIn s.lists := by
    refine .table (by simp) (List.forall_mem_cons.2 ⟨.shared ?_, List.forall_mem_cons.2 ⟨.null,
      List.forall_mem_singleton.2 (.list nofun)⟩⟩)
    exact List.forall_mem_cons.2 ⟨.text _, List.forall_mem_singleton.2 (.text _)⟩
  have hk : (v.bindings.map fun e => e.1.textOrEmpty).Nodup := by decide
  have hdeclares : v.DeclaresContext s.lists := by
    refine (Value.contextIssues_eq_nil hv).1 ?_
    rfl
  obtain ⟨-, haccepted, -, hkept⟩ := ofValue_keeps_meaning v s hv hk
  obtain ⟨c, hc⟩ := haccepted.2 hdeclares
  obtain ⟨hlookup, -, hagain⟩ := hkept c hc
  have hfound : ∀ (x : String) (l : Lookup), ((lookup v x).outcome s).1 = .ok l →
      ((lookup c x).outcome s).1 = .ok l := by
    intro x l hl
    obtain ⟨l', hc, hv⟩ := hlookup x s rfl
    rw [hc, ← hv, hl]
  exact ⟨hv, hk, c, hc, hfound _ _ rfl, hfound _ _ rfl, hfound _ _ rfl, hfound _ _ rfl, hagain s⟩

end Context

end Clearance
