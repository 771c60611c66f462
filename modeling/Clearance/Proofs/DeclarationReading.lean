import Clearance.Declaration.Reading
import Clearance.Proofs.Reading

/-!
# What a declaration is read into

The issues of a payload follow from the value that it stands for: `Value.moduleIssues` are those
of a module, `Value.registryIssues` those of a registry, each at its place and in the order of the
payload. If there are none, what is declared is `Value.declaredModules`. Both are said without a
run and without a reading that is under way.

A reading comes to them if the payload answers for its parts as the values do that the parts stand
for (`Payload.Reflects`). It does nothing but look (`Run.Reads`): whatever it finds, nothing is
drawn, nothing is written into the log, and no list is changed. The values of the shape that a
document has are such a payload (`Value.JsonIn`, `Payload.reflects_value`).
-/

namespace Clearance

/-! ## Looking only -/

/-- The second session is the first one after some looks at values. -/
def Session.Looked (s t : Session) : Prop :=
  ∃ es, t = s.emit es ∧ ∀ e ∈ es, ∃ v l, e = .look v l

namespace Session.Looked

variable {s t u : Session}

theorem refl (s : Session) : s.Looked s :=
  ⟨[], s.emit_nil.symm, fun _ h => absurd h List.not_mem_nil⟩

theorem look (s : Session) (v : Value) (l : Look) : s.Looked (s.emit [.look v l]) :=
  ⟨_, rfl, fun _ h => ⟨v, l, List.mem_singleton.1 h⟩⟩

theorem trans (h : s.Looked t) (h' : t.Looked u) : s.Looked u := by
  obtain ⟨es, rfl, hes⟩ := h
  obtain ⟨fs, rfl, hfs⟩ := h'
  exact ⟨es ++ fs, s.emit_emit es fs,
    fun e he => (List.mem_append.1 he).elim (hes e) (hfs e)⟩

theorem lists (h : s.Looked t) : t.lists = s.lists := by
  obtain ⟨es, rfl, -⟩ := h
  rfl

theorem records (h : s.Looked t) : t.records = s.records := by
  obtain ⟨es, rfl, hes⟩ := h
  have hnil : es.filterMap Event.record? = [] := by
    refine List.filterMap_eq_nil_iff.2 fun e he => ?_
    obtain ⟨v, l, rfl⟩ := hes e he
    rfl
  rw [Session.records_emit, hnil, List.append_nil]

end Session.Looked

namespace Run

variable {α β : Type} {s : Session}

/-- Started in the session the run comes to the result, and does nothing but look on the way. -/
def Reads (x : Run α) (s : Session) (a : α) : Prop :=
  ∃ t, x.outcome s = (.ok a, t) ∧ s.Looked t

theorem Reads.pure (a : α) : (Pure.pure a : Run α).Reads s a :=
  ⟨s, rfl, .refl s⟩

theorem Reads.bind {x : Run α} {f : α → Run β} {a : α} {b : β} (h : x.Reads s a)
    (hf : ∀ t, t.lists = s.lists → (f a).Reads t b) : (x >>= f).Reads s b := by
  obtain ⟨t, ht, hst⟩ := h
  obtain ⟨u, hu, htu⟩ := hf t hst.lists
  exact ⟨u, by rw [outcome_bind, ht, ← hu], hst.trans htu⟩

theorem Reads.map {x : Run α} {a : α} (f : α → β) (h : x.Reads s a) :
    (f <$> x).Reads s (f a) := by
  rw [map_eq_pure_bind]
  exact h.bind fun _ _ => .pure _

theorem reads_record (v : Value) (l : Look) : (record (.look v l)).Reads s () :=
  ⟨_, outcome_record s _, .look s v l⟩

/-- What comes of the items in turn, if each of them is read. -/
theorem reads_inTurn {f : Nat → α → Run β} {g : Nat → α → β} {xs : List α} {i : Nat}
    (h : ∀ j, ∀ x ∈ xs, ∀ t, t.lists = s.lists → (f j x).Reads t (g j x)) :
    (inTurn f i xs).Reads s ((xs.zipIdx i).map fun y => g y.2 y.1) := by
  induction xs generalizing i s with
  | nil => exact .pure _
  | cons x xs ih =>
    refine (h i x List.mem_cons_self s rfl).bind fun t ht => ?_
    refine (ih fun j y hy u hu => ?_).bind fun _ _ => .pure _
    exact h j y (List.mem_cons_of_mem x hy) u (hu.trans ht)

theorem reads_mapM {f : α → Run β} {g : α → β} {xs : List α}
    (h : ∀ x ∈ xs, ∀ t, t.lists = s.lists → (f x).Reads t (g x)) :
    (xs.mapM f).Reads s (xs.map g) := by
  induction xs generalizing s with
  | nil => exact .pure _
  | cons x xs ih =>
    rw [List.mapM_cons]
    refine (h x List.mem_cons_self s rfl).bind fun t ht => ?_
    refine (ih fun y hy u hu => ?_).bind fun _ _ => .pure _
    exact h y (List.mem_cons_of_mem x hy) u (hu.trans ht)

end Run

/-! ## Issues that are gathered -/

namespace Checked

variable {α β γ : Type}

/-- What is declared, unless there are issues. -/
def ofIssues : List Issue → α → Checked α
  | [], a => .ok a
  | es, _ => .error es

variable (es fs : List Issue) (a : α) (b : β)

theorem map_ofIssues (f : α → β) : (ofIssues es a).map f = ofIssues es (f a) := by
  cases es <;> rfl

theorem pair_ofIssues : pair (ofIssues es a) (ofIssues fs b) = ofIssues (es ++ fs) (a, b) := by
  cases es <;> cases fs <;> simp [ofIssues, pair, issues]

theorem all_ofIssues (es : γ → List Issue) (a : γ → α) (xs : List γ) :
    all (xs.map fun x => ofIssues (es x) (a x)) = ofIssues (xs.flatMap es) (xs.map a) := by
  induction xs with
  | nil => rfl
  | cons x xs ih =>
    rw [List.map_cons, all, ih, pair_ofIssues, map_ofIssues]
    rfl

end Checked

/-! ## Issues of values -/

/-- The issue of a text that is to be an identifier, if there is one. -/
def Role.issues (role : Role) (place : List Step) (s : String) : List Issue :=
  match role.check s with
  | .ok _ => []
  | .error f => [⟨place, f⟩]

theorem Role.atPlace_check (role : Role) (place : List Step) (s : String) :
    Checked.atPlace place (role.check s) = .ofIssues (role.issues place s) s := by
  rw [issues, check]
  split
  · rfl
  split <;> rfl

/-- Of several texts that are to be identifiers the first issue counts. -/
theorem Role.atPlace_mapM_check (role : Role) (place : List Step) (ps : List String) :
    Checked.atPlace place (ps.mapM role.check) =
      .ofIssues ((ps.flatMap (role.issues place)).take 1) ps := by
  induction ps with
  | nil => rfl
  | cons p ps ih =>
    have hp := role.atPlace_check place p
    rw [List.mapM_cons, List.flatMap_cons]
    cases hc : role.check p with
    | error f =>
      rw [issues, hc]
      rfl
    | ok q =>
      rw [issues, hc] at hp ⊢
      obtain rfl : q = p := Except.ok.inj hp
      rw [List.nil_append, ← Checked.map_ofIssues _ ps (q :: ·), ← ih]
      cases ps.mapM role.check <;> rfl

namespace Value

/-- The items of a list, where the shared lists are as they are in `lists`. -/
def items? (lists : List (List Value)) : Value → Option (List Value)
  | .container .list xs => some xs
  | .shared id => some ((lists[id]?).getD [])
  | _ => none

/-- The characters of a text, none of anything else. -/
def textOrEmpty (v : Value) : String :=
  v.text?.getD ""

/-- The issues of what is to be a text. -/
def textIssues (place : List Step) (v : Value) : List Issue :=
  if v.text?.isSome then [] else [⟨place, .notText⟩]

/-- The issues of what is to be the name of a module: one at most. -/
def nameIssues (place : List Step) (v : Value) : List Issue :=
  match v.text? with
  | none => [⟨place, .notText⟩]
  | some s => Role.scope.issues place s

variable (lists : List (List Value))

/-- The issues of what is to be a list: one if it is none, or else those of its items in order,
each at its own place. -/
def listIssues (issues : List Step → Value → List Issue) (place : List Step) (v : Value) :
    List Issue :=
  match v.items? lists with
  | none => [⟨place, .notList⟩]
  | some items => items.zipIdx.flatMap fun y => issues (place ++ [.index y.2]) y.1

/-- Items at their own places have no issues just when none of them has any by itself. -/
theorem flatMap_zipIdx_eq_nil {issues : List Step → Value → List Issue} {P : Value → Prop}
    (h : ∀ place x, issues place x = [] ↔ P x) (place : List Step) (items : List Value) :
    (items.zipIdx.flatMap fun y => issues (place ++ [.index y.2]) y.1) = [] ↔
      ∀ x ∈ items, P x := by
  simp only [List.flatMap_eq_nil_iff, h]
  constructor
  · intro hi x hx
    rw [← List.zipIdx_map_fst 0 items] at hx
    obtain ⟨y, hy, rfl⟩ := List.mem_map.1 hx
    exact hi y hy
  · exact fun hi y hy => hi y.1 (List.fst_mem_of_mem_zipIdx hy)

theorem textIssues_eq_nil (place : List Step) (v : Value) :
    v.textIssues place = [] ↔ v.text?.isSome := by
  rw [textIssues]
  split <;> simp_all

/-- The issues of what are to be the permissions of a module: one if it is no list or empty, or else
one for each item that is no text, or else, if all are texts, the first one of an identifier. -/
def permissionsIssues (place : List Step) (v : Value) : List Issue :=
  match v.items? lists with
  | none => [⟨place, .notList⟩]
  | some [] => [⟨place, .tooShort⟩]
  | some items =>
    if items.all (·.text?.isSome) then
      ((items.map textOrEmpty).flatMap (Role.permission.issues place)).take 1
    else items.zipIdx.flatMap fun y => textIssues (place ++ [.index y.2]) y.1

/-- The issues of what is under a name, or the one that nothing is. -/
def fieldIssues (issues : List Step → Value → List Issue) (name : String) (place : List Step)
    (v : Value) : List Issue :=
  match Context.under? v name with
  | none => [⟨place ++ [.field name], .missing⟩]
  | some w => issues (place ++ [.field name]) w

/-- The issues of a module: those of its name before those of its permissions. -/
def moduleIssues (place : List Step) (v : Value) : List Issue :=
  if v.mapping?.isSome then
    v.fieldIssues nameIssues "name" place ++
      v.fieldIssues (permissionsIssues lists) "permissions" place
  else [⟨place, .notRecord .module⟩]

/-- The issues of a registry: those of its modules in order. -/
def registryIssues (v : Value) : List Issue :=
  if v.mapping?.isSome then
    match Context.under? v "modules" with
    | none => []
    | some w => w.listIssues lists (moduleIssues lists) [.field "modules"]
  else [⟨[], .notRecord .registry⟩]

/-- The permissions that are declared, each once. -/
def declaredPermissions (v : Value) : List String :=
  distinct (((v.items? lists).getD []).map textOrEmpty)

/-- The module that is declared. -/
def declaredModule (v : Value) : ModuleDeclaration where
  name := ((Context.under? v "name").map textOrEmpty).getD default
  permissions := ((Context.under? v "permissions").map (declaredPermissions lists)).getD default

/-- The modules that are declared, in order. -/
def declaredModules (v : Value) : List ModuleDeclaration :=
  (((Context.under? v "modules").bind (items? lists)).getD []).map (declaredModule lists)

end Value

/-! ## Readings -/

/-- The payload answers for each of its parts as the value does that the part stands for, by looks
only. -/
structure Payload.Reflects {α : Type} (p : Payload α) (lists : List (List Value)) (Ok : α → Prop)
    (view : α → Value) : Prop where
  text {x : α} (hx : Ok x) (t : Session) :
    (p.text x).Reads t (match (view x).text? with
      | some s => .ok s
      | none => .error .notText)
  module {x : α} (hx : Ok x) : p.module? x = none
  registry {x : α} (hx : Ok x) : p.registry? x = none
  isMapping {x : α} (hx : Ok x) : p.isMapping x = (view x).mapping?.isSome
  field {x : α} (hx : Ok x) (name : String) :
    ∃ y : Option α, y.map view = Context.under? (view x) name ∧ (∀ z ∈ y, Ok z) ∧
      ∀ t : Session, t.lists = lists → (p.field? x name).Reads t y
  visit {x : α} (hx : Ok x) :
    ∃ ys : Option (List α), ys.map (List.map view) = (view x).items? lists ∧
      (∀ zs ∈ ys, ∀ z ∈ zs, Ok z) ∧
      ∀ {β : Type} (f : Nat → α → Run β) (g : Nat → α → β) (t : Session), t.lists = lists →
        (∀ zs ∈ ys, ∀ i, ∀ z ∈ zs, ∀ u : Session, u.lists = lists → (f i z).Reads u (g i z)) →
        (p.visit? x f).Reads t (ys.map fun zs => .complete (zs.zipIdx.map fun z => g z.2 z.1))

namespace Payload.Reflects

open Value

variable {α β : Type} {p : Payload α} {lists : List (List Value)} {Ok : α → Prop}
  {view : α → Value} (hp : p.Reflects lists Ok view)

include hp

theorem reads_readText {x : α} (hx : Ok x) (place : List Step) (s : Session) :
    (p.readText place x).Reads s
      (.ofIssues ((view x).textIssues place) (view x).textOrEmpty) := by
  refine (hp.text hx s).bind fun t _ => ?_
  rw [textIssues, textOrEmpty]
  cases (view x).text? <;> exact .pure _

theorem reads_readName {x : α} (hx : Ok x) (place : List Step) (s : Session) :
    (p.readName place x).Reads s
      (.ofIssues ((view x).nameIssues place) (view x).textOrEmpty) := by
  refine (hp.reads_readText hx place s).bind fun t _ => ?_
  rw [nameIssues, textIssues, textOrEmpty]
  cases (view x).text? with
  | none => exact .pure _
  | some s => exact Role.scope.atPlace_check place s ▸ .pure _

/-- A list is read into what its items are read into, with the issues of all of them. -/
theorem reads_readList {read : List Step → α → Run (Checked β)}
    {issues : List Step → Value → List Issue} {declared : Value → β}
    (hread : ∀ place z, Ok z → ∀ t : Session, t.lists = lists →
      (read place z).Reads t (.ofIssues (issues place (view z)) (declared (view z))))
    {x : α} (hx : Ok x) (place : List Step) {s : Session} (hs : s.lists = lists) :
    (p.readList read place x).Reads s (.ofIssues ((view x).listIssues lists issues place)
      ((((view x).items? lists).getD []).map declared)) := by
  obtain ⟨ys, hys, hok, hvisit⟩ := hp.visit hx
  refine (hvisit _ _ s hs fun zs hzs i z hz u hu =>
    hread (place ++ [.index i]) z (hok zs hzs z hz) u hu).bind fun t _ => ?_
  rw [listIssues, ← hys]
  cases ys with
  | none => exact .pure _
  | some zs =>
    have hd : zs.zipIdx.map (fun z => declared (view z.1)) = (zs.map view).map declared :=
      calc zs.zipIdx.map (fun z => declared (view z.1))
        _ = (zs.zipIdx.map Prod.fst).map (declared ∘ view) := by rw [List.map_map]; rfl
        _ = (zs.map view).map declared := by rw [List.zipIdx_map_fst, List.map_map]
    have ha := Checked.all_ofIssues (fun z => issues (place ++ [.index z.2]) (view z.1))
      (fun z => declared (view z.1)) zs.zipIdx
    simp only [Option.map_some, List.zipIdx_map, List.flatMap_map, Option.getD_some, ← hd]
    exact ha ▸ .pure _

theorem reads_readTexts {x : α} (hx : Ok x) (place : List Step) {s : Session}
    (hs : s.lists = lists) :
    (p.readTexts place x).Reads s (.ofIssues ((view x).listIssues lists textIssues place)
      ((((view x).items? lists).getD []).map textOrEmpty)) :=
  hp.reads_readList (fun place _ hz t _ => hp.reads_readText hz place t) hx place hs

theorem reads_readPermissions {x : α} (hx : Ok x) (place : List Step) {s : Session}
    (hs : s.lists = lists) :
    (p.readPermissions place x).Reads s (.ofIssues ((view x).permissionsIssues lists place)
      ((view x).declaredPermissions lists)) := by
  rw [readPermissions]
  refine (hp.reads_readTexts hx place hs).bind fun t _ => ?_
  rw [listIssues, permissionsIssues, declaredPermissions]
  cases (view x).items? lists with
  | none => exact .pure _
  | some items =>
    cases items with
    | nil => exact .pure _
    | cons y ys =>
      dsimp only [Option.getD_some]
      have htexts := flatMap_zipIdx_eq_nil textIssues_eq_nil place (y :: ys)
      rw [← List.all_eq_true] at htexts
      by_cases h : (y :: ys).all (·.text?.isSome)
      · rw [if_pos h, htexts.2 h, ← Checked.map_ofIssues _ _ distinct,
          ← Role.atPlace_mapM_check]
        exact .pure _
      · rw [if_neg h]
        cases hi : (y :: ys).zipIdx.flatMap fun y => y.1.textIssues (place ++ [.index y.2]) with
        | nil => exact absurd (htexts.1 hi) h
        | cons e es => exact .pure _

/-- What is under a name is read as it is read on its own. -/
theorem reads_readField [Inhabited β] {read : List Step → α → Run (Checked β)}
    {issues : List Step → Value → List Issue} {declared : Value → β}
    (hread : ∀ place z, Ok z → ∀ t : Session, t.lists = lists →
      (read place z).Reads t (.ofIssues (issues place (view z)) (declared (view z))))
    {x : α} (hx : Ok x) (place : List Step) (name : String) {s : Session} (hs : s.lists = lists) :
    (p.readField read place x name).Reads s (.ofIssues ((view x).fieldIssues issues name place)
      (((Context.under? (view x) name).map declared).getD default)) := by
  obtain ⟨y, hy, hok, hfield⟩ := hp.field hx name
  refine (hfield s hs).bind fun t ht => ?_
  rw [fieldIssues, ← hy]
  cases y with
  | none => exact .pure _
  | some z => exact hread _ z (hok z rfl) t (ht.trans hs)

theorem reads_readModule {x : α} (hx : Ok x) (place : List Step) {s : Session}
    (hs : s.lists = lists) :
    (p.readModule place x).Reads s (.ofIssues ((view x).moduleIssues lists place)
      ((view x).declaredModule lists)) := by
  rw [readModule, hp.module hx, moduleIssues]
  show (p.readFields place x).Reads s _
  rw [readFields, hp.isMapping hx]
  cases (view x).mapping?.isSome with
  | false => exact .pure _
  | true =>
    refine (hp.reads_readField (fun place z hz t _ => hp.reads_readName hz place t)
      hx place "name" hs).bind fun t ht => ?_
    refine (hp.reads_readField (fun place z hz u hu => hp.reads_readPermissions hz place hu)
      hx place "permissions" (ht.trans hs)).bind fun u _ => ?_
    rw [Checked.pair_ofIssues, Checked.map_ofIssues]
    exact .pure _

theorem reads_readRegistry {x : α} (hx : Ok x) {s : Session} (hs : s.lists = lists) :
    (p.readRegistry x).Reads s (.ofIssues ((view x).registryIssues lists)
      ((view x).declaredModules lists)) := by
  obtain ⟨y, hy, hok, hfield⟩ := hp.field hx "modules"
  rw [readRegistry, hp.registry hx, registryIssues]
  show (p.readModules x).Reads s _
  rw [readModules, hp.isMapping hx]
  cases (view x).mapping?.isSome with
  | false => exact .pure _
  | true =>
    refine (hfield s hs).bind fun t ht => ?_
    rw [declaredModules, ← hy]
    cases y with
    | none => exact .pure _
    | some z =>
      exact hp.reads_readList (fun place z hz u hu => hp.reads_readModule hz place hu)
        (hok z rfl) _ (ht.trans hs)

end Payload.Reflects

/-! ## Values in the shape of documents -/

/-- The value has the shape of a document: it is null, a truth value, a number, a text, a list of
values of this shape, which may be a shared one, or a table of such values under texts. -/
inductive Value.JsonIn (lists : List (List Value)) : Value → Prop
  | null : JsonIn lists .null
  | bool (b : Bool) : JsonIn lists (.bool b)
  | int (i : Int) : JsonIn lists (.int i)
  | float (x : Float) : JsonIn lists (.float x)
  | nan (i : Identity) : JsonIn lists (.nan i)
  | text (s : String) : JsonIn lists (.text s)
  | list {xs : List Value} (h : ∀ x ∈ xs, JsonIn lists x) : JsonIn lists (.container .list xs)
  | shared {id : Nat} (h : ∀ x ∈ (lists[id]?).getD [], JsonIn lists x) : JsonIn lists (.shared id)
  | table {es : List (Value × Value)} (hkeys : ∀ e ∈ es, ∃ k, e.1 = .text k)
      (h : ∀ e ∈ es, JsonIn lists e.2) : JsonIn lists (.mapping .table es)

namespace Value.JsonIn

variable {lists : List (List Value)} {v w : Value} {name : String}

theorem under (h : v.JsonIn lists) (hw : Context.under? v name = some w) : w.JsonIn lists := by
  obtain ⟨⟨kind, es⟩, hm, hb⟩ := Option.bind_eq_some_iff.1 hw
  obtain ⟨e, he, rfl⟩ := Option.map_eq_some_iff.1 hb
  cases h with
  | table _ h =>
    cases hm
    exact h e (List.mem_of_find?_eq_some he)
  | _ => cases hm

theorem of_mem_items {xs : List Value} (h : v.JsonIn lists) (hi : v.items? lists = some xs) :
    ∀ x ∈ xs, x.JsonIn lists := by
  cases h with
  | list h | shared h =>
    cases hi
    exact h
  | _ => cases hi

end Value.JsonIn

/-- Going through the items of a list does to them what is done to each of them in turn. -/
theorem Run.reads_visit {β : Type} {v : Value} {items : List Value} {s : Session}
    {f : Nat → Value → Run β} {g : Nat → Value → β} (hv : v.items? s.lists = some items)
    (h : ∀ i, ∀ x ∈ items, ∀ t, t.lists = s.lists → (f i x).Reads t (g i x)) :
    (visit v f).Reads s (.complete (items.zipIdx.map fun y => g y.2 y.1)) := by
  have hturn : ∀ t, t.lists = s.lists →
      (Visit.complete <$> inTurn f 0 items).Reads t
        (.complete (items.zipIdx.map fun y => g y.2 y.1)) := fun t ht =>
    (reads_inTurn fun i x hx u hu => h i x hx u (hu.trans ht)).map Visit.complete
  unfold Value.items? at hv
  split at hv
  · cases hv
    exact (reads_record _ _).bind fun t ht => hturn t ht
  · next id =>
    cases hv
    have hlisted : ∀ t, t.lists = s.lists → (listed id).Reads t ((s.lists[id]?).getD []) :=
      fun t ht => ⟨t, by rw [outcome_listed, ht], .refl t⟩
    exact (reads_record _ _).bind fun t ht => (hlisted t ht).bind fun u hu =>
      hturn u (hu.trans ht)
  · cases hv

/-- Values of the shape of documents stand for themselves. -/
theorem Payload.reflects_value (lists : List (List Value)) :
    Payload.value.Reflects lists (Value.JsonIn lists) id where
  text h _ := by cases h <;> exact .pure _
  module h := by cases h <;> rfl
  registry h := by cases h <;> rfl
  isMapping _ := rfl
  field {x} h name := by
    refine ⟨Context.under? x name, by simp, fun z hz => h.under hz, fun t _ => ?_⟩
    show (x.declaredField? name).Reads t _
    unfold Value.declaredField? Context.under?
    cases x.mapping? with
    | none => exact .pure _
    | some m => exact (Run.reads_record x _).bind fun _ _ => .pure _
  visit {x} h := by
    refine ⟨x.items? lists, by simp, fun zs hzs => h.of_mem_items hzs, fun f g t ht hf => ?_⟩
    show (x.declaredVisit? f).Reads t _
    cases hi : x.items? lists with
    | none =>
      cases h with
      | list _ | shared _ => cases hi
      | _ => exact .pure _
    | some items =>
      rw [hi] at hf
      have hv : (Run.visit x f).Reads t (.complete (items.zipIdx.map fun z => g z.2 z.1)) :=
        Run.reads_visit (ht ▸ hi) fun i z hz u hu => hf items rfl i z hz u (hu.trans ht)
      cases h with
      | list _ | shared _ => exact hv.map some
      | _ => cases hi

end Clearance
