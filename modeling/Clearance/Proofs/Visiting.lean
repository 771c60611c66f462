import Clearance.Domain
import Clearance.Proofs.Outcome

/-!
# Going through the items of a value

What a visit of a value comes to follows from what is done to each of the items, as long as nothing
counts for this but the item and the shared lists. A `Handling` says what comes of an item, and
which events it leaves. The items are handled one after the other up to the first one that fails
(`Handling.reached`), and a source keeps what has not been drawn from it by then
(`Handling.after`). This is `Run.outcome_visit`, the one lemma about the loop, from which the
outcomes of gathering the items (`Run.outcome_iterate`) and of gathering their identifiers
(`Run.outcome_identifyAll`) follow.
-/

namespace Clearance

/-! ## Results of all items -/

section

variable {ε α β : Type} {f : α → Except ε β} {xs : List α}

theorem mapM_cons_eq_ok {x : α} {zs : List β} :
    (x :: xs).mapM f = .ok zs ↔ ∃ y ys, f x = .ok y ∧ xs.mapM f = .ok ys ∧ zs = y :: ys := by
  rw [List.mapM_cons]
  cases f x with
  | error e => exact ⟨fun h => (by cases h), fun ⟨_, _, h, _⟩ => (by cases h)⟩
  | ok y =>
    cases xs.mapM f with
    | error e => exact ⟨fun h => (by cases h), fun ⟨_, _, _, h, _⟩ => (by cases h)⟩
    | ok ys =>
      constructor
      · intro h
        cases h
        exact ⟨y, ys, rfl, rfl, rfl⟩
      · rintro ⟨_, _, ⟨⟩, ⟨⟩, rfl⟩
        rfl

/-- The results are those of the items. -/
theorem mem_of_mapM_eq_ok {ys : List β} (h : xs.mapM f = .ok ys) {y : β} :
    y ∈ ys ↔ ∃ x ∈ xs, f x = .ok y := by
  induction xs generalizing ys with
  | nil =>
    cases h
    simp
  | cons x xs ih =>
    obtain ⟨z, zs, hx, hxs, rfl⟩ := mapM_cons_eq_ok.1 h
    simp only [List.mem_cons, ih hxs, exists_eq_or_imp, hx, Except.ok.injEq]
    exact or_congr_left eq_comm

/-- If there are results each item has one. -/
theorem exists_of_mapM_eq_ok {ys : List β} (h : xs.mapM f = .ok ys) :
    ∀ x ∈ xs, ∃ y, f x = .ok y := by
  induction xs generalizing ys with
  | nil => exact fun _ h => absurd h List.not_mem_nil
  | cons x xs ih =>
    obtain ⟨z, zs, hx, hxs, rfl⟩ := mapM_cons_eq_ok.1 h
    exact List.forall_mem_cons.2 ⟨⟨z, hx⟩, ih hxs⟩

/-- There are results if each item has one. -/
theorem exists_mapM_eq_ok (h : ∀ x ∈ xs, ∃ y, f x = .ok y) : ∃ ys, xs.mapM f = .ok ys := by
  induction xs with
  | nil => exact ⟨[], rfl⟩
  | cons x xs ih =>
    obtain ⟨⟨y, hy⟩, hxs⟩ := List.forall_mem_cons.1 h
    obtain ⟨ys, hys⟩ := ih hxs
    exact ⟨y :: ys, mapM_cons_eq_ok.2 ⟨y, ys, hy, hys, rfl⟩⟩

/-- Whatever else comes of the items comes of their results, if it does item by item. -/
theorem mapM_eq_mapM_of_ok {γ : Type} {g : α → Except ε γ} {g' : β → Except ε γ} {ys : List β}
    (h : xs.mapM f = .ok ys) (hg : ∀ x y, f x = .ok y → g x = g' y) : xs.mapM g = ys.mapM g' := by
  induction xs generalizing ys with
  | nil =>
    cases h
    rfl
  | cons x xs ih =>
    obtain ⟨z, zs, hx, hxs, rfl⟩ := mapM_cons_eq_ok.1 h
    rw [List.mapM_cons, List.mapM_cons, hg x z hx, ih hxs]

theorem mapM_eq_ok_map {g : α → β} (h : ∀ x ∈ xs, f x = .ok (g x)) :
    xs.mapM f = .ok (xs.map g) := by
  induction xs with
  | nil => rfl
  | cons x xs ih =>
    obtain ⟨hx, hxs⟩ := List.forall_mem_cons.1 h
    exact mapM_cons_eq_ok.2 ⟨_, _, hx, ih hxs, rfl⟩

end

/-! ## What a value yields -/

/-- What there is to be gone through, as the state of a source. -/
def Iteration.stock (s : Session) : Iteration → Source
  | .items xs => ⟨xs, none⟩
  | .shared id => ⟨(s.lists[id]?).getD [], none⟩
  | .source id => s.source id

/-- The source that is drawn from, if one is. -/
def Iteration.source? : Iteration → Option Nat
  | .source id => some id
  | _ => none

namespace Value

/-- The source that the value draws from, if it is a one-shot source. -/
def source? : Value → Option Nat
  | .source id | .relay _ id => some id
  | _ => none

/-- What the value yields in the session, as the state of a source. -/
def stockIn (v : Value) (s : Session) : Except Failure Source :=
  match Iteration.of? v with
  | none => .error (.notIterable v.kindName)
  | some it => .ok (it.stock s)

end Value

/-- Only a one-shot source is iterated over as one. -/
theorem Iteration.bind_source? (v : Value) :
    (Iteration.of? v).bind Iteration.source? = v.source? := by
  unfold Iteration.of? Value.source?
  cases v with
  | object _ _ _ items _ => cases items <;> rfl
  | peculiar t => rfl
  | member family name value =>
    show ((Value.content? _).map _).bind _ = none
    cases Value.content? (.member family name value) <;> rfl
  | _ => rfl

/-- What a value yields depends on the shared lists and on the source that it draws from. -/
theorem Value.stockIn_congr {v : Value} {s t : Session} (hl : t.lists = s.lists)
    (hs : ∀ id, v.source? = some id → t.source id = s.source id) : v.stockIn t = v.stockIn s := by
  have hsource := Iteration.bind_source? v
  unfold stockIn
  cases hit : Iteration.of? v with
  | none => rfl
  | some it =>
    rw [hit] at hsource
    cases it with
    | items xs => rfl
    | shared id => simp only [Iteration.stock, hl]
    | source id => exact congrArg Except.ok (hs id hsource.symm)

/-- What draws from a source yields what that has. -/
theorem Value.stockIn_of_source? {v : Value} {id : Nat} (h : v.source? = some id) (s : Session) :
    v.stockIn s = .ok (s.source id) := by
  rw [← Iteration.bind_source?] at h
  obtain ⟨it, hit, hid⟩ := Option.bind_eq_some_iff.1 h
  unfold stockIn
  rw [hit]
  cases it <;> cases hid
  rfl

/-! ## Handling items -/

/-- What comes of an item, and the events on the way. -/
structure Handling (β : Type) where
  result : Value → Except Failure β
  events : Value → List Event

namespace Handling

variable {β : Type} (h : Handling β)

/-- The items that are handled: all up to the first one that fails. -/
def reached : List Value → List Value
  | [] => []
  | x :: xs => x :: match h.result x with
    | .ok _ => reached xs
    | .error _ => []

/-- The items that are left after the first one that fails, if one does. -/
def left? : List Value → Option (List Value)
  | [] => none
  | x :: xs =>
    match h.result x with
    | .ok _ => left? xs
    | .error _ => some xs

/-- The state of a source after its items have been handled. -/
def after (x : Source) : Source :=
  match h.left? x.items with
  | none => .spent
  | some xs => ⟨xs, x.failure⟩

/-- What comes of all that a source yields, or why something is missing. -/
def gather (x : Source) : Except Failure (List β) :=
  match x.items.mapM h.result, x.failure with
  | .ok ys, none => .ok ys
  | .ok _, some e | .error e, _ => .error e

/-- What comes of the items of the value in the session, or why something is missing. -/
def gatherIn (v : Value) (s : Session) : Except Failure (List β) :=
  v.stockIn s >>= h.gather

/-- The events of handling the items of the value in the session. -/
def eventsIn (v : Value) (s : Session) : List Event :=
  match Iteration.of? v with
  | none => []
  | some it =>
    .look v .traversed :: (h.reached (it.stock s).items).flatMap fun x =>
      if it.source?.isSome then .produced :: h.events x else h.events x

/-- The session after handling the items of the value, its trace apart. -/
def sessionAfter (v : Value) (s : Session) : Session :=
  match v.source? with
  | none => s
  | some id => s.put id (h.after (s.source id))

/-- This is what `f` does to items, whatever the session is but for the shared lists. -/
def IsOf (f : Nat → Value → Run β) (lists : List (List Value)) : Prop :=
  ∀ i x (t : Session), t.lists = lists → (f i x).outcome t = (h.result x, t.emit (h.events x))

variable (v : Value) (s : Session) (es : List Event)

@[simp] theorem gatherIn_emit : h.gatherIn v (s.emit es) = h.gatherIn v s :=
  rfl

@[simp] theorem sessionAfter_emit :
    h.sessionAfter v (s.emit es) = (h.sessionAfter v s).emit es := by
  unfold sessionAfter
  cases v.source? <;> rfl

@[simp] theorem lists_sessionAfter : (h.sessionAfter v s).lists = s.lists := by
  unfold sessionAfter
  cases v.source? <;> rfl

@[simp] theorem trace_sessionAfter : (h.sessionAfter v s).trace = s.trace := by
  unfold sessionAfter
  cases v.source? <;> rfl

variable {h v s} {t : Session} {f : Nat → Value → Run β} {xs : List Value} {x : Value} {y : β}
  {e : Failure}

/-- What is no source leaves the session as it is. -/
theorem sessionAfter_of_none (hv : v.source? = none) : h.sessionAfter v s = s := by
  rw [sessionAfter, hv]

/-- A source that yields nothing any more is not changed by going through it. -/
theorem sessionAfter_of_spent (hv : ∀ id, v.source? = some id → s.source id = .spent) :
    h.sessionAfter v s = s := by
  unfold sessionAfter
  cases hid : v.source? with
  | none => rfl
  | some id =>
    have hafter : h.after (s.source id) = s.source id := by
      rw [hv id hid]
      rfl
    exact (congrArg (s.put id) hafter).trans (s.put_source id)

/-- The source that is drawn from is in the state that handling its items has left it in. -/
theorem source_sessionAfter {id : Nat} (hv : v.source? = some id) :
    (h.sessionAfter v s).source id = h.after (s.source id) := by
  rw [sessionAfter, hv]
  exact s.source_put id fun hs => by rw [hs]; rfl

/-- Other sources are as they were. -/
theorem source_sessionAfter_of_ne {id : Nat} (hv : v.source? ≠ some id) :
    (h.sessionAfter v s).source id = s.source id := by
  unfold sessionAfter
  cases hid : v.source? with
  | none => rfl
  | some j => exact s.source_put_of_ne (fun hj => hv (by rw [hid, hj])) _

theorem reached_cons_of_ok (hx : h.result x = .ok y) :
    h.reached (x :: xs) = x :: h.reached xs := by
  rw [reached, hx]

theorem reached_cons_of_error (hx : h.result x = .error e) : h.reached (x :: xs) = [x] := by
  rw [reached, hx]

theorem after_cons_of_ok (hx : h.result x = .ok y) (failure : Option Failure) :
    h.after ⟨x :: xs, failure⟩ = h.after ⟨xs, failure⟩ := by
  simp only [after, left?, hx]

theorem after_cons_of_error (hx : h.result x = .error e) (failure : Option Failure) :
    h.after ⟨x :: xs, failure⟩ = ⟨xs, failure⟩ := by
  simp only [after, left?, hx]

/-- Only items of the list are handled. -/
theorem mem_of_mem_reached (hx : x ∈ h.reached xs) : x ∈ xs := by
  induction xs with
  | nil => cases hx
  | cons z zs ih =>
    cases hz : h.result z with
    | error e =>
      rw [reached_cons_of_error hz, List.mem_singleton] at hx
      exact hx ▸ List.mem_cons_self
    | ok y =>
      rw [reached_cons_of_ok hz, List.mem_cons] at hx
      exact List.mem_cons.2 (hx.imp id ih)

theorem gather_of_error (hxs : xs.mapM h.result = .error e) (failure : Option Failure) :
    h.gather ⟨xs, failure⟩ = .error e := by
  simp only [gather, hxs]

theorem gather_of_ok {ys : List β} (hxs : xs.mapM h.result = .ok ys) (failure : Option Failure) :
    h.gather ⟨xs, failure⟩ = match failure with
      | none => .ok ys
      | some e => .error e := by
  simp only [gather, hxs]
  cases failure <;> rfl

end Handling

/-- What comes of each item comes of all, unless the source fails. -/
theorem Handling.gather_eq_ok {β : Type} {h : Handling β} {x : Source} {ys : List β} :
    h.gather x = .ok ys ↔ x.items.mapM h.result = .ok ys ∧ x.failure = none := by
  rcases x with ⟨xs, failure⟩
  cases hxs : xs.mapM h.result with
  | error e => simp [gather_of_error hxs]
  | ok zs =>
    rw [gather_of_ok hxs]
    cases failure <;> simp

/-- Items of which each comes to itself are gathered as they are. -/
theorem Handling.gather_of_kept {h : Handling Value} {xs : List Value}
    (hxs : ∀ x ∈ xs, h.result x = .ok x) : h.gather ⟨xs, none⟩ = .ok xs := by
  have hmap : xs.mapM h.result = .ok (xs.map id) := mapM_eq_ok_map hxs
  rw [List.map_id] at hmap
  exact gather_of_ok hmap none

namespace Handling

variable {β : Type} {h : Handling β} {xs ys : List Value} {x : Source}

theorem subset_of_left? (hxs : h.left? xs = some ys) : ys ⊆ xs := by
  induction xs with
  | nil => cases hxs
  | cons z zs ih =>
    rw [left?] at hxs
    cases hz : h.result z with
    | error e =>
      rw [hz] at hxs
      exact Option.some.inj hxs ▸ List.subset_cons_self z zs
    | ok y =>
      rw [hz] at hxs
      exact List.Subset.trans (ih hxs) (List.subset_cons_self z zs)

/-- Of a source is left what it had before, at most. -/
theorem items_after_subset : (h.after x).items ⊆ x.items := by
  unfold after
  cases hx : h.left? x.items with
  | none => exact List.nil_subset _
  | some ys => exact subset_of_left? hx

/-- Nothing is left where something has come of all items. -/
theorem after_of_mapM {zs : List β} (hx : x.items.mapM h.result = .ok zs) : h.after x = .spent := by
  have hleft : ∀ {xs : List Value} {zs : List β}, xs.mapM h.result = .ok zs →
      h.left? xs = none := by
    intro xs zs hxs
    induction xs generalizing zs with
    | nil => rfl
    | cons y ys ih =>
      obtain ⟨z, zs, hy, hys, rfl⟩ := mapM_cons_eq_ok.1 hxs
      rw [left?, hy]
      exact ih hys
  rw [after, hleft hx]

theorem failure_after (hx : x.failure = none) : (h.after x).failure = none := by
  unfold after
  cases h.left? x.items with
  | none => rfl
  | some ys => exact hx

end Handling

/-- What comes of a visit that completes with the results, unless the value fails in the end. -/
def Visit.ending {β : Type} (failure : Option Failure) (i : Nat) (ys : List β) : Visit β :=
  match failure with
  | none => .complete ys
  | some e => .interrupted (i + ys.length) e

theorem Visit.cons_ending {β : Type} (failure : Option Failure) (i : Nat) (y : β) (ys : List β) :
    (Visit.ending failure (i + 1) ys).cons y = Visit.ending failure i (y :: ys) := by
  cases failure with
  | none => rfl
  | some e =>
    show Visit.interrupted _ e = Visit.interrupted _ e
    rw [List.length_cons, Nat.add_right_comm, Nat.add_assoc]

namespace Run

variable {β : Type} {h : Handling β} {f : Nat → Value → Run β} {s : Session}

theorem outcome_inTurn (hf : h.IsOf f s.lists) (i : Nat) (xs : List Value) :
    (inTurn f i xs).outcome s =
      (xs.mapM h.result, s.emit ((h.reached xs).flatMap h.events)) := by
  induction xs generalizing i s with
  | nil =>
    rw [Handling.reached, List.flatMap_nil, Session.emit_nil]
    rfl
  | cons x xs ih =>
    rw [inTurn, outcome_bind, hf i x s rfl, List.mapM_cons]
    cases hx : h.result x with
    | error e =>
      rw [Handling.reached_cons_of_error hx, List.flatMap_singleton]
      rfl
    | ok y =>
      have hrest := @ih (s.emit (h.events x)) hf (i + 1)
      simp only [outcome_bind, hrest, Handling.reached_cons_of_ok hx, List.flatMap_cons,
        Session.emit_emit]
      cases xs.mapM h.result <;> rfl

/-- Drawing all items from a source and handling them. -/
theorem outcome_drawEach (hf : h.IsOf f s.lists) (id : Nat) (failure : Option Failure) (i : Nat)
    (xs : List Value) :
    (drawEach f id failure i xs).outcome s =
      ((xs.mapM h.result).map (Visit.ending failure i),
        (s.put id (h.after ⟨xs, failure⟩)).emit
          ((h.reached xs).flatMap fun x => .produced :: h.events x)) := by
  induction xs generalizing i s with
  | nil =>
    rw [Handling.reached, List.flatMap_nil, Session.emit_nil]
    cases failure <;> rfl
  | cons x xs ih =>
    have hfx := hf i x ((s.put id ⟨xs, failure⟩).emit [.produced]) rfl
    simp only [drawEach, outcome_bind, outcome_setSource, outcome_record, hfx, List.mapM_cons]
    cases hx : h.result x with
    | error e =>
      rw [Handling.reached_cons_of_error hx, Handling.after_cons_of_error hx,
        List.flatMap_singleton, Session.emit_emit, List.singleton_append]
      rfl
    | ok y =>
      have hrest := @ih (((s.put id ⟨xs, failure⟩).emit [.produced]).emit (h.events x)) hf (i + 1)
      simp only [Session.emit_emit, Session.put_emit, Session.put_put] at hrest
      simp only [Session.emit_emit, hrest, Handling.reached_cons_of_ok hx,
        Handling.after_cons_of_ok hx, List.flatMap_cons]
      cases xs.mapM h.result with
      | error e => rfl
      | ok ys => exact congrArg (fun w => (Except.ok w, _)) (Visit.cons_ending failure i y ys)

/-- Going through the items of a value. -/
theorem outcome_visit (hf : h.IsOf f s.lists) (v : Value) :
    (visit v f >>= Visit.results).outcome s =
      (h.gatherIn v s, (h.sessionAfter v s).emit (h.eventsIn v s)) := by
  have hsource := Iteration.bind_source? v
  unfold visit Handling.gatherIn Handling.eventsIn Handling.sessionAfter Value.stockIn
  -- what is no source has no failure of its own
  have hturn : ∀ xs, ((do
        record (.look v .traversed)
        return .complete (← inTurn f 0 xs) : Run (Visit β)) >>= Visit.results).outcome s =
      (h.gather ⟨xs, none⟩, s.emit (.look v .traversed :: (h.reached xs).flatMap h.events)) := by
    intro xs
    have hxs := @outcome_inTurn β h f (s.emit [.look v .traversed]) hf 0 xs
    simp only [outcome_bind, outcome_record, hxs, Handling.gather, Session.emit_emit]
    cases xs.mapM h.result <;> rfl
  cases hit : Iteration.of? v with
  | none =>
    rw [hit] at hsource
    rw [← hsource]
    exact congrArg (_, ·) s.emit_nil.symm
  | some it =>
    rw [hit] at hsource
    cases it with
    | items xs =>
      rw [← hsource]
      exact hturn xs
    | shared id =>
      rw [← hsource]
      exact hturn _
    | source id =>
      rw [← hsource]
      rcases hx : s.source id with ⟨xs, failure⟩
      have hdraw := @outcome_drawEach β h f (s.emit [.look v .traversed]) hf id failure 0 xs
      simp only [outcome_bind, outcome_record, outcome_source, Session.source_emit, hx, hdraw,
        Option.bind_some, Iteration.source?, Iteration.stock, Option.isSome_some, if_true,
        Session.put_emit, Session.emit_emit]
      cases hys : xs.mapM h.result with
      | error e => exact congrArg (·, _) (Handling.gather_of_error hys failure).symm
      | ok ys =>
        cases failure with
        | none => exact congrArg (·, _) (Handling.gather_of_ok hys none).symm
        | some e => exact congrArg (·, _) (Handling.gather_of_ok hys (some e)).symm

end Run

/-! ## Gathering items and identifiers -/

namespace Handling

/-- Each item is kept as it is. -/
def keeping : Handling Value where
  result := .ok
  events _ := []

theorem mapM_keeping (xs : List Value) : xs.mapM keeping.result = .ok xs := by
  have hmap : xs.mapM keeping.result = .ok (xs.map id) := mapM_eq_ok_map fun _ _ => rfl
  rwa [List.map_id] at hmap

/-- Nothing is left of a source whose items are kept. -/
theorem after_keeping (x : Source) : keeping.after x = .spent :=
  after_of_mapM (mapM_keeping x.items)

/-- Each item is identified, where the shared lists are as they are in `lists`. -/
def identifying (lists : List (List Value)) : Handling Value where
  result x := (x.now lists).identified
  events x := (x.now lists).identifyingCalls.map .called

/-- Each item is identified, and its identifier has to be fit for a set. -/
def identifyingFixed (lists : List (List Value)) : Handling Value where
  result x := do
    let p ← (x.now lists).identified
    match p.changeable? with
    | none => .ok p
    | some kind => .error (.changeable kind)
  events x := (x.now lists).identifyingCalls.map .called

end Handling

theorem Handling.result_identifyingFixed_eq_ok {lists : List (List Value)} {x i : Value} :
    (identifyingFixed lists).result x = .ok i ↔
      (x.now lists).identified = .ok i ∧ i.changeable? = none := by
  simp only [identifyingFixed, bind, Except.bind]
  cases (x.now lists).identified with
  | error e => exact ⟨fun h => (by cases h), fun h => (by cases h.1)⟩
  | ok p =>
    dsimp only
    cases hp : p.changeable? with
    | none =>
      refine ⟨fun h => ?_, fun h => h.1⟩
      cases h
      exact ⟨rfl, hp⟩
    | some kind =>
      refine ⟨fun h => (by cases h), fun ⟨h, hi⟩ => ?_⟩
      cases h
      rw [hp] at hi
      cases hi

namespace Run

variable {s : Session}

@[simp] theorem outcome_callAll (names : List String) :
    (callAll names).outcome s = (.ok (), s.emit (names.map .called)) := by
  induction names generalizing s with
  | nil => exact congrArg (_, ·) s.emit_nil.symm
  | cons name names ih =>
    have hrest := @ih (s.emit [.called name])
    rw [Session.emit_emit] at hrest
    show (record (.called name) >>= fun _ => callAll names).outcome s = _
    rw [outcome_bind, outcome_record]
    exact hrest

@[simp] theorem outcome_requireFixed (v : Value) :
    (requireFixed v).outcome s = (match v.changeable? with
      | none => .ok ()
      | some kind => .error (.changeable kind), s) := by
  rw [requireFixed]
  cases v.changeable? <;> rfl

theorem outcome_identify (v : Value) : (identify v).outcome s =
    ((v.now s.lists).identified, s.emit ((v.now s.lists).identifyingCalls.map .called)) := by
  simp [identify, outcome_bind]

theorem isOf_identifying (s : Session) :
    (Handling.identifying s.lists).IsOf (fun _ x => identify x) s.lists :=
  fun _ x _ ht => ht ▸ outcome_identify x

theorem isOf_identifyingFixed (s : Session) :
    (Handling.identifyingFixed s.lists).IsOf (fun _ x => identifyFixed x) s.lists := by
  intro _ x t ht
  simp only [identifyFixed, outcome_bind, outcome_identify, ← ht, Handling.identifyingFixed]
  cases (x.now t.lists).identified with
  | error e => rfl
  | ok p =>
    simp only [outcome_requireFixed, bind, Except.bind]
    cases p.changeable? <;> rfl

/-- Each item is as it is. -/
theorem iterate_eq_visit (v : Value) :
    iterate v = visit v (fun _ x => return x) >>= Visit.results := by
  have hturn : ∀ xs i, inTurn (fun _ x => (return x : Run Value)) i xs = return xs := by
    intro xs
    induction xs with
    | nil => exact fun _ => rfl
    | cons x xs ih =>
      intro i
      rw [inTurn, pure_bind, ih, pure_bind]
  unfold iterate visit
  cases Iteration.of? v with
  | none => rfl
  | some it =>
    cases it with
    | items xs | shared id => simp [hturn, Visit.results]
    | source id => simp only [drain, bind_assoc]

end Run

namespace Value

variable (v : Value) (s : Session)

/-- The items that the value yields in the session, or why it does not yield them all. -/
def itemsIn : Except Failure (List Value) :=
  Handling.keeping.gatherIn v s

/-- The identifiers of the items that the value yields in the session, or why one is missing. -/
def identifiedIn : Except Failure (List Value) :=
  (Handling.identifying s.lists).gatherIn v s

/-- The events of identifying the items of the value in the session. -/
def traversal : List Event :=
  (Handling.identifying s.lists).eventsIn v s

/-- What draws from a source has the identifiers of what that has. -/
theorem identifiedIn_of_source? {v : Value} {id : Nat} (h : v.source? = some id) (s : Session) :
    v.identifiedIn s = (Handling.identifying s.lists).gather (s.source id) := by
  rw [identifiedIn, Handling.gatherIn, stockIn_of_source? h]
  rfl

variable (es : List Event)

@[simp] theorem identifiedIn_emit : v.identifiedIn (s.emit es) = v.identifiedIn s :=
  rfl

@[simp] theorem traversal_emit : v.traversal (s.emit es) = v.traversal s :=
  rfl

end Value

/-- The session after identifying the items of the value, its trace apart. -/
def Session.drained (s : Session) (v : Value) : Session :=
  (Handling.identifying s.lists).sessionAfter v s

namespace Session

variable (s : Session) (v : Value)

@[simp] theorem drained_emit (es : List Event) : (s.emit es).drained v = (s.drained v).emit es :=
  Handling.sessionAfter_emit _ v s es

@[simp] theorem lists_drained : (s.drained v).lists = s.lists :=
  Handling.lists_sessionAfter _ v s

@[simp] theorem trace_drained : (s.drained v).trace = s.trace :=
  Handling.trace_sessionAfter _ v s

end Session

theorem Run.outcome_iterate (v : Value) (s : Session) : (iterate v).outcome s =
    (v.itemsIn s, (Handling.keeping.sessionAfter v s).emit (Handling.keeping.eventsIn v s)) := by
  have hf : Handling.keeping.IsOf (fun _ x => return x) s.lists := fun _ _ _ _ =>
    congrArg (_, ·) (Session.emit_nil _).symm
  rw [iterate_eq_visit, outcome_visit hf]
  rfl

/-- What can be gathered is handled item by item. -/
theorem Handling.gatherIn_of_iterate {β : Type} {v : Value} {s : Session} {items : List Value}
    (h : ((Run.iterate v).outcome s).1 = .ok items) (handling : Handling β) :
    handling.gatherIn v s = items.mapM handling.result := by
  rw [Run.outcome_iterate] at h
  have hitems : v.itemsIn s = .ok items := h
  obtain ⟨y, hy, hgather⟩ := bind_eq_ok.1 hitems
  obtain ⟨hmap, hfailure⟩ := gather_eq_ok.1 hgather
  obtain rfl : y.items = items := Except.ok.inj ((mapM_keeping _).symm.trans hmap)
  rw [gatherIn, hy]
  show handling.gather y = _
  rw [gather, hfailure]
  cases y.items.mapM handling.result <;> rfl

/-- What comes of all items comes of those that can be gathered. -/
theorem Handling.exists_items_of_gatherIn {β : Type} {h : Handling β} {v : Value} {s : Session}
    {ys : List β} (hys : h.gatherIn v s = .ok ys) :
    ∃ items, ((Run.iterate v).outcome s).1 = .ok items ∧ items.mapM h.result = .ok ys := by
  obtain ⟨y, hy, hgather⟩ := bind_eq_ok.1 hys
  obtain ⟨hmap, hfailure⟩ := gather_eq_ok.1 hgather
  refine ⟨y.items, ?_, hmap⟩
  rw [Run.outcome_iterate, Value.itemsIn]
  exact bind_eq_ok.2 ⟨y, hy, gather_eq_ok.2 ⟨mapM_keeping _, hfailure⟩⟩

theorem Run.outcome_identifyAll (v : Value) (s : Session) :
    (identifyAll v).outcome s = (v.identifiedIn s, (s.drained v).emit (v.traversal s)) :=
  outcome_visit (isOf_identifying s) v

theorem Run.outcome_identifyAllFixed (v : Value) (s : Session) : (identifyAllFixed v).outcome s =
    ((Handling.identifyingFixed s.lists).gatherIn v s,
      ((Handling.identifyingFixed s.lists).sessionAfter v s).emit
        ((Handling.identifyingFixed s.lists).eventsIn v s)) :=
  outcome_visit (isOf_identifyingFixed s) v

/-! ## Identifiers of identifiers -/

namespace Identifier

variable (lists : List (List Value)) (p : Identifier) (ps : List Identifier) (s : Session)

@[simp] theorem now_toValue : p.toValue.now lists = p.toValue := by
  cases p <;> cases lists <;> rfl

@[simp] theorem identifyingCalls_toValue : p.toValue.identifyingCalls = [] := by
  cases p <;> rfl

@[simp] theorem changeable?_toValue : p.toValue.changeable? = none := by
  cases p <;> rfl

/-- Texts are identifiers. -/
theorem map_text (qs : List String) : qs.map Value.text = (qs.map some).map toValue := by
  rw [List.map_map]
  rfl

/-- To go through identifiers finds them as they are. -/
theorem gather_toValue {h : Handling Value}
    (hresult : ∀ p : Identifier, h.result p.toValue = .ok p.toValue) :
    h.gather ⟨ps.map toValue, none⟩ = .ok (ps.map toValue) := by
  refine Handling.gather_of_kept fun x hx => ?_
  obtain ⟨p, -, rfl⟩ := List.mem_map.1 hx
  exact hresult p

/-- If nothing is called for identifiers, to go through a container of them is a look at it. -/
theorem eventsIn_toValue {h : Handling Value} (hevents : ∀ p : Identifier, h.events p.toValue = [])
    (kind : ContainerKind) : h.eventsIn (.container kind (ps.map toValue)) s =
      [.look (.container kind (ps.map toValue)) .traversed] := by
  refine congrArg (Event.look _ .traversed :: ·) (List.flatMap_eq_nil_iff.2 fun x hx => ?_)
  obtain ⟨p, -, rfl⟩ := List.mem_map.1 (Handling.mem_of_mem_reached hx)
  exact hevents p

theorem result_identifying : (Handling.identifying lists).result p.toValue = .ok p.toValue := by
  simp [Handling.identifying]

theorem result_identifyingFixed :
    (Handling.identifyingFixed lists).result p.toValue = .ok p.toValue := by
  simp [Handling.identifyingFixed, bind, Except.bind]

end Identifier

end Clearance
