import Clearance.Grant.Index
import Clearance.Proofs.Visiting

/-!
# Reading a scope

What a context has under a scope (`Context.under?`) and the session fix the whole course of
reading the scope: what comes of it (`Context.offer`), the events (`Context.readingEvents`) and
the source that is exhausted afterwards, if there is one (`Session.drainedAt`). This is
`GrantIndex.outcome_read`; everything else about the index is derived from it.

An index answers from what it remembers and reads the context otherwise. `GrantIndex.yields` is
what asking for a scope comes to, either way. Asking for one scope does not change what the index
yields for any other scope, unless both draw from one source (`GrantIndex.grants_ends`).
-/

namespace Clearance

namespace Context

/-- What the mapping has under the scope. -/
def under? (c : Value) (x : String) : Option Value :=
  c.mapping?.bind fun m => bound? x m.2

/-- The source that is drawn from for the scope, if one is. -/
def source? (c : Value) (x : String) : Option Nat :=
  (under? c x).bind Value.source?

/-- What is under a scope is in the mapping, with the scope as its key. -/
theorem mem_of_under? {c v : Value} {x : String} (h : under? c x = some v) :
    ∃ kind entries, c.mapping? = some (kind, entries) ∧
      ∃ e ∈ entries, e.1.foundAs? = some x ∧ e.2 = v := by
  obtain ⟨⟨kind, entries⟩, hm, hb⟩ := Option.bind_eq_some_iff.1 h
  obtain ⟨e, he, hv⟩ := Option.map_eq_some_iff.1 hb
  have hkey := List.find?_some he
  exact ⟨kind, entries, hm, e, List.mem_of_find?_eq_some he, beq_iff_eq.1 hkey, hv⟩

/-- Only a mapping has anything under a scope. -/
theorem isSome_mapping?_of_under? {c v : Value} {x : String} (h : under? c x = some v) :
    c.mapping?.isSome := by
  obtain ⟨m, hm, -⟩ := Option.bind_eq_some_iff.1 h
  exact Option.isSome_of_mem hm

end Context

/-- What cannot be read is no source. -/
theorem Value.source?_of_unreadable {v : Value} (h : v.isUnreadable = true) :
    v.source? = none := by
  cases v with
  | source _ | relay _ _ => cases h
  | _ => rfl

/-- What cannot be read leaves the session as it is. -/
theorem Session.drained_of_unreadable (s : Session) {v : Value} (h : v.isUnreadable = true) :
    s.drained v = s :=
  Handling.sessionAfter_of_none (Value.source?_of_unreadable h)

/-! ## The course of a reading -/

namespace Context

variable (c : Value) (s : Session) (x : String)

/-- The state of the scope as a look in the session finds it, or why the look fails. -/
def stateIn : Except Failure Lookup :=
  match under? c x with
  | none => .ok ⟨.absent, []⟩
  | some .null => .ok ⟨.noGrant, []⟩
  | some v =>
    if v.isUnreadable then .error (.invalidContext (.unreadableGrants x v.kindName))
    else (v.identifiedIn s).map fun ps => ⟨.granted, ps⟩

/-- The events of looking the scope up in the session. -/
def lookEvents : List Event :=
  .look c (.tested x) ::
    match under? c x with
    | none => []
    | some v => .look c (.fetched x) :: if v.isUnreadable then [] else v.traversal s

end Context

/-- What is granted for the scope as a reading in the session finds it, or why it fails. -/
def Context.offer (c : Value) (s : Session) (x : String) :
    Except Failure (Option PermissionDomain) :=
  stateIn c s x >>= Lookup.granted?

/-- The events of reading the scope in the session. -/
def Context.readingEvents (c : Value) (s : Session) (x : String) : List Event :=
  lookEvents c s x ++ if (under? c x).isNone then [.logged (.absentScope x)] else []

/-- The session after reading the scope, its trace apart. -/
def Session.drainedAt (s : Session) (c : Value) (x : String) : Session :=
  match Context.under? c x with
  | none => s
  | some v => s.drained v

@[simp] theorem Session.trace_drainedAt (s : Session) (c : Value) (x : String) :
    (s.drainedAt c x).trace = s.trace := by
  unfold drainedAt
  split
  · rfl
  · next v _ => exact s.trace_drained v

@[simp] theorem Session.lists_drainedAt (s : Session) (c : Value) (x : String) :
    (s.drainedAt c x).lists = s.lists := by
  unfold drainedAt
  split
  · rfl
  · next v _ => exact s.lists_drained v

namespace Context

variable {c : Value} {s : Session} {x y : String}

/-- What a look finds, by what is under the scope. -/
theorem stateIn_cases {l : Lookup} (h : stateIn c s x = .ok l) :
    (under? c x = none ∧ l = ⟨.absent, []⟩) ∨ (under? c x = some .null ∧ l = ⟨.noGrant, []⟩) ∨
      ∃ v ps, under? c x = some v ∧ v.isUnreadable = false ∧ v.identifiedIn s = .ok ps ∧
        l = ⟨.granted, ps⟩ := by
  unfold stateIn at h
  split at h
  · next he => exact .inl ⟨he, (Except.ok.inj h).symm⟩
  · next he => exact .inr (.inl ⟨he, (Except.ok.inj h).symm⟩)
  · next v _ he =>
    split at h
    · cases h
    · next hr =>
      obtain ⟨ps, hi, rfl⟩ := map_eq_ok.1 h
      exact .inr (.inr ⟨v, ps, he, Bool.eq_false_iff.2 hr, hi, rfl⟩)

/-- A look finds the scope absent where the mapping has nothing under it. -/
theorem under?_isNone_of_stateIn {l : Lookup} (h : stateIn c s x = .ok l) :
    (under? c x).isNone = decide (l.state = .absent) := by
  rcases stateIn_cases h with ⟨he, rfl⟩ | ⟨he, rfl⟩ | ⟨v, ps, he, -, -, rfl⟩ <;> simp [he]

/-- A look at a scope with nothing under it does not fail. -/
theorem under?_isNone_of_error {e : Failure} (h : stateIn c s x = .error e) :
    (under? c x).isNone = false := by
  cases he : under? c x with
  | none =>
    rw [stateIn, he] at h
    cases h
  | some v => rfl

theorem outcome_tests (hc : c.mapping?.isSome) :
    (tests c x).outcome s = (.ok (under? c x).isSome, s.emit [.look c (.tested x)]) := by
  obtain ⟨m, hm⟩ := Option.isSome_iff_exists.1 hc
  simp [tests, under?, hm, Except.map]

theorem outcome_fetch {v : Value} (hv : under? c x = some v) :
    (fetch c x).outcome s = (.ok v, s.emit [.look c (.fetched x)]) := by
  obtain ⟨m, hm, hb⟩ := Option.bind_eq_some_iff.1 hv
  simp [fetch, hm, hb, Except.map]

theorem outcome_classify (hc : c.mapping?.isSome) :
    (classify c x).outcome s =
      (stateIn c s x, (s.drainedAt c x).emit (lookEvents c s x)) := by
  rw [classify, Run.outcome_bind, outcome_tests hc]
  cases hv : under? c x with
  | none => simp [stateIn, lookEvents, Session.drainedAt, hv]
  | some v =>
    simp only [Option.isSome_some, if_true, Run.outcome_bind, outcome_fetch hv,
      Session.emit_emit, stateIn, lookEvents, Session.drainedAt, hv]
    by_cases hn : v = .null
    · subst hn
      rfl
    · cases hu : v.isUnreadable with
      | true => simp [Session.drained_of_unreadable, hu]
      | false => simp [Run.outcome_identifyAll, hu]

theorem outcome_ensure (hc : c.mapping?.isSome) : (ensure c).outcome s = (.ok (), s) := by
  obtain ⟨m, hm⟩ := Option.isSome_iff_exists.1 hc
  simp [ensure, hm]

/-- A lookup finds what a look does. -/
theorem outcome_lookup (hc : c.mapping?.isSome) (s : Session) (x : String) :
    ((lookup c x).outcome s).1 = stateIn c s x := by
  rw [lookup, Run.outcome_bind, outcome_ensure hc]
  simp only [outcome_classify hc]

@[simp] theorem stateIn_emit (es : List Event) : stateIn c (s.emit es) x = stateIn c s x :=
  rfl

@[simp] theorem offer_emit (es : List Event) : offer c (s.emit es) x = offer c s x :=
  rfl

/-- What is readable is granted as the identifiers of its items. -/
theorem stateIn_of_readable {v : Value} (hv : under? c x = some v) (hr : v.isUnreadable = false) :
    stateIn c s x = (v.identifiedIn s).map fun ps => ⟨.granted, ps⟩ := by
  unfold stateIn
  rw [hv]
  split
  · next h => cases h
  · next h =>
    cases h
    cases hr
  · next h =>
    cases h
    rw [if_neg (by simp [hr])]

/-- What is readable is granted, and the set of the identifiers of its items is offered. -/
theorem offer_of_readable {v : Value} (hv : under? c x = some v) (hr : v.isUnreadable = false) :
    offer c s x = v.identifiedIn s >>= fun ps => (PermissionDomain.gather ps).map some := by
  rw [offer, stateIn_of_readable hv hr]
  cases v.identifiedIn s <;> rfl

/-- Where something is offered, what is under the scope can be read and has identifiers. -/
theorem readable_of_offer {d : PermissionDomain} (h : offer c s x = .ok (some d)) :
    ∃ v ps, under? c x = some v ∧ v.isUnreadable = false ∧ v.identifiedIn s = .ok ps := by
  obtain ⟨l, hl, hd⟩ := bind_eq_ok.1 h
  rcases stateIn_cases hl with ⟨-, rfl⟩ | ⟨-, rfl⟩ | ⟨v, ps, hv, hr, hi, -⟩
  · cases hd
  · cases hd
  · exact ⟨v, ps, hv, hr, hi⟩

/-- What is granted depends on the shared lists and on the source that is drawn from, if one
is. -/
theorem identifiedIn_congr {v : Value} {t : Session} (hl : t.lists = s.lists)
    (hs : ∀ id, v.source? = some id → t.source id = s.source id) :
    v.identifiedIn t = v.identifiedIn s := by
  rw [Value.identifiedIn, Value.identifiedIn, Handling.gatherIn, Handling.gatherIn, hl,
    Value.stockIn_congr hl hs]

theorem source?_eq {v : Value} (hv : under? c x = some v) : source? c x = v.source? := by
  rw [source?, hv, Option.bind_some]

theorem stateIn_congr_session {t : Session} (hl : t.lists = s.lists)
    (hs : ∀ id, source? c x = some id → t.source id = s.source id) :
    stateIn c t x = stateIn c s x := by
  rw [stateIn, stateIn]
  split
  · rfl
  · rfl
  · next v _ hv => rw [identifiedIn_congr hl fun id hid => hs id ((source?_eq hv).trans hid)]

/-- An offer depends on the shared lists and on the source under the scope, if there is one. -/
theorem offer_congr {t : Session} (hl : t.lists = s.lists)
    (hs : ∀ id, source? c x = some id → t.source id = s.source id) :
    offer c t x = offer c s x := by
  rw [offer, offer, stateIn_congr_session hl hs]

/-- The events of a reading depend on the shared lists and on the source under the scope, if there
is one. -/
theorem readingEvents_congr {t : Session} (hl : t.lists = s.lists)
    (hs : ∀ id, source? c x = some id → t.source id = s.source id) :
    readingEvents c t x = readingEvents c s x := by
  have ht : ∀ v, under? c x = some v → v.traversal t = v.traversal s := by
    intro v hv
    have hstock := Value.stockIn_congr hl fun id hid => hs id ((source?_eq hv).trans hid)
    unfold Value.stockIn at hstock
    unfold Value.traversal Handling.eventsIn
    cases hit : Iteration.of? v with
    | none => rfl
    | some it =>
      rw [hit] at hstock
      simp only [hl, Except.ok.inj hstock]
  rw [readingEvents, readingEvents, lookEvents, lookEvents]
  cases hv : under? c x with
  | none => rfl
  | some v => simp only [ht v hv]

/-- Reading a scope leaves in the source under it what identifying its items does. -/
theorem source_drainedAt_self {id : Nat} (h : source? c x = some id) :
    (s.drainedAt c x).source id = (Handling.identifying s.lists).after (s.source id) := by
  obtain ⟨v, hv, hid⟩ := Option.bind_eq_some_iff.1 h
  unfold Session.drainedAt
  rw [hv]
  exact Handling.source_sessionAfter hid

/-- Reading a scope leaves the source under another one as it is, unless both draw from it. -/
theorem source_drainedAt {id : Nat} (h : ∀ id, source? c x = some id → source? c y ≠ some id)
    (hy : source? c y = some id) : (s.drainedAt c x).source id = s.source id := by
  unfold Session.drainedAt
  cases hx : under? c x with
  | none => rfl
  | some v =>
    exact Handling.source_sessionAfter_of_ne fun hid => h id ((source?_eq hx).trans hid) hy

/-- Reading a scope leaves what others offer, unless they draw from the same source. -/
theorem offer_drainedAt (h : ∀ id, source? c x = some id → source? c y ≠ some id) :
    offer c (s.drainedAt c x) y = offer c s y :=
  offer_congr (s.lists_drainedAt c x) fun _ => source_drainedAt h

end Context

/-! ## The index -/

namespace GrantIndex

/-- The index after the grants of the scope are found. -/
def remembering (ix : GrantIndex) (x : String) (found : Option PermissionDomain) : GrantIndex :=
  { ix with memo := (x, found) :: ix.memo }

/-- What asking the index for the scope in the session comes to. -/
def yields (ix : GrantIndex) (s : Session) (x : String) :
    Except Failure (Option PermissionDomain) :=
  match ix.memo.lookup x with
  | some found => .ok found
  | none => Context.offer ix.context s x

variable {ix ix' : GrantIndex} {x y : String} {s t : Session}

/-- The index of a mapping can be opened, and nothing has been read then. -/
theorem outcome_ofContext {c : Value} (hc : c.mapping?.isSome) :
    (ofContext c).outcome s = (.ok { context := c }, s) := by
  rw [ofContext, Run.outcome_bind, Context.outcome_ensure hc]
  rfl

theorem yields_remembering_self (found : Option PermissionDomain) :
    (ix.remembering x found).yields s x = .ok found := by
  simp only [yields, remembering, List.lookup_cons_self]

theorem yields_remembering_of_ne {found : Option PermissionDomain} (h : y ≠ x) :
    (ix.remembering x found).yields s y = ix.yields s y := by
  simp only [yields, remembering, List.lookup_cons, beq_eq_false_iff_ne.2 h]

/-- The course of reading a scope. -/
theorem outcome_read (hc : ix.context.mapping?.isSome) :
    (ix.read x).outcome s =
      ((Context.offer ix.context s x).map fun found => (found, ix.remembering x found),
        (s.drainedAt ix.context x).emit (Context.readingEvents ix.context s x)) := by
  rw [read, Run.outcome_bind, Context.outcome_classify hc, Context.offer,
    Context.readingEvents]
  cases h : Context.stateIn ix.context s x with
  | error e =>
    rw [Context.under?_isNone_of_error h, if_neg Bool.false_ne_true, List.append_nil]
    rfl
  | ok l =>
    have hfound : (Except.ok l >>= Lookup.granted?) = l.granted? := rfl
    rw [Context.under?_isNone_of_stateIn h, hfound]
    by_cases hl : l.state = .absent <;> cases hd : l.granted? <;>
      simp [hl, hd, Run.outcome_bind, remembering, Except.map]

/-- Asking for a scope comes to what the index yields, and whatever other scopes yielded they
yield afterwards, as long as reading the one scope leaves what they offer. -/
theorem grants_ends (hc : ix.context.mapping?.isSome) :
    (ix.grants x).Ends s
      (fun r t => ix.yields s x = .ok r.1 ∧ r.2.context = ix.context ∧
        (t = s ∨ ∃ es, t = (s.drainedAt ix.context x).emit es) ∧
        ∀ y, (y ≠ x → Context.offer ix.context (s.drainedAt ix.context x) y =
          Context.offer ix.context s y) → r.2.yields t y = ix.yields s y)
      (fun e _ => ix.yields s x = .error e) := by
  unfold Run.Ends grants
  cases hm : ix.memo.lookup x with
  | some found =>
    have hx : ix.yields s x = .ok found := by rw [yields, hm]
    exact ⟨hx, rfl, .inl rfl, fun _ _ => rfl⟩
  | none =>
    have hx : ix.yields s x = Context.offer ix.context s x := by rw [yields, hm]
    simp only [outcome_read hc, hx]
    cases ho : Context.offer ix.context s x with
    | error e => rfl
    | ok found =>
      refine ⟨rfl, rfl, .inr ⟨_, rfl⟩, fun y hy => ?_⟩
      by_cases hyx : y = x
      · rw [hyx, hx, ho, yields_remembering_self]
      · rw [yields_remembering_of_ne hyx, yields, yields, Context.offer_emit, hy hyx]

end GrantIndex

end Clearance
