import Clearance.Proofs.Defects
import Clearance.Proofs.Noninterference

/-!
# An index that is asked again and again

An `OpenIndex` is asked for one scope after the other, and each time it answers or fails. What it
comes to depends on what it has been asked before for the same scope only: asking for another one
leaves everything that counts for a scope as it is (`OpenIndex.SameFor`), as long as no two scopes
draw from one source, and this is kept by all that is asked afterwards.

So after whatever has been asked before, the index answers for a scope as a lookup in the context
at the start does (`OpenIndex.yields_after`). This is not so for a scope with a source that fails,
nor for one with a grant that has no identifier, since what has been drawn by then is missing
afterwards (`OpenIndex.after_unreliable`); hence the scope has to be `Context.Steady`. All that is
certain of an index in use is put together in `OpenIndex.Reliable`.
-/

namespace Clearance

/-! ## What an answer tells -/

/-- The answer tells what a lookup found: that there is no grant, or the set of the grants. -/
structure Lookup.Told (l : Lookup) (found : Option PermissionDomain) : Prop where
  none_iff : found = none ↔ l.state = .absent ∨ l.state = .noGrant
  mem_iff : ∀ d, found = some d → ∀ p,
    p ∈ d.permissions ↔ ∃ v ∈ l.grants, Identifier.ofValue? v = some p
  foreign : ∀ d, found = some d →
    d.foreign = Value.firsts (l.grants.filter fun v => (Identifier.ofValue? v).isNone)

/-- What a lookup found is told by the set of its grants. -/
theorem Lookup.told (l : Lookup) :
    l.Told (if l.isGranted then some (.ofValues l.grants) else none) := by
  rcases l with ⟨state, grants⟩
  cases state with
  | absent => exact ⟨iff_of_true rfl (.inl rfl), fun _ h => (by cases h), fun _ h => (by cases h)⟩
  | noGrant => exact ⟨iff_of_true rfl (.inr rfl), fun _ h => (by cases h), fun _ h => (by cases h)⟩
  | granted =>
    refine ⟨iff_of_false (fun h => (by cases h)) (by simp), ?_, ?_⟩
    · rintro _ ⟨⟩ p
      exact PermissionDomain.mem_permissions_ofValues
    · rintro _ ⟨⟩
      rfl

/-- What can be gathered has grants that can be keys. -/
theorem Context.Steady.fixed {c : Value} {s : Session} {x : String} {l : Lookup}
    (hs : Steady c s x) (h : stateIn c s x = .ok l) : ∀ v ∈ l.grants, v.changeable? = none := by
  rcases stateIn_cases h with ⟨-, rfl⟩ | ⟨-, rfl⟩ | ⟨v, ps, hv, hr, hi, rfl⟩
  · exact fun v hv => absurd hv List.not_mem_nil
  · exact fun v hv => absurd hv List.not_mem_nil
  · obtain ⟨ps', hi', hfixed⟩ := hs.identifiedIn hv hr
    obtain rfl : ps = ps' := Except.ok.inj (hi.symm.trans hi')
    exact hfixed

/-- Of what can be gathered, what cannot be offered cannot be read. -/
theorem Context.unreadable_of_offer_error {c : Value} {s : Session} {x : String} {e : Failure}
    (h : offer c s x = .error e) (hs : Steady c s x) :
    ∃ v, under? c x = some v ∧ v.isUnreadable = true := by
  cases hf : fault c x with
  | none =>
    obtain ⟨found, hfound⟩ := offer_of_steady hf hs
    rw [hfound] at h
    cases h
  | some e' =>
    obtain ⟨v, ⟨hv, -, hr⟩, -⟩ := defective_of_fault hf
    exact ⟨v, hv, hr⟩

/-! ## Asking -/

/-- An index in use, and the session in which it is. -/
structure OpenIndex where
  index : GrantIndex
  session : Session

namespace OpenIndex

/-- The index on the context with nothing asked yet. -/
def start (c : Value) (s : Session) : OpenIndex :=
  ⟨{ context := c }, s⟩

/-- Asks for the scope: the answer or the failure, and the index afterwards. A failure leaves
nothing to remember. -/
def ask (o : OpenIndex) (x : String) : Except Failure (Option PermissionDomain) × OpenIndex :=
  match (o.index.grants x).outcome o.session with
  | (.ok (found, i), t) => (.ok found, ⟨i, t⟩)
  | (.error e, t) => (.error e, ⟨o.index, t⟩)

/-- The index after it has been asked for the scopes in order. -/
def after (o : OpenIndex) (xs : List String) : OpenIndex :=
  xs.foldl (fun o x => (o.ask x).2) o

end OpenIndex

namespace GrantIndex

/-- The index after a reading of the scope that comes to this. -/
def keeping (i : GrantIndex) (x : String) : Except Failure (Option PermissionDomain) → GrantIndex
  | .ok found => i.remembering x found
  | .error _ => i

variable {i i' : GrantIndex} {x y : String} {r : Except Failure (Option PermissionDomain)}

@[simp] theorem context_keeping : (i.keeping x r).context = i.context := by
  cases r <;> rfl

theorem lookup_keeping_of_ne (h : y ≠ x) :
    (i.keeping x r).memo.lookup y = i.memo.lookup y := by
  cases r with
  | error e => rfl
  | ok found =>
    show ((x, found) :: i.memo).lookup y = i.memo.lookup y
    rw [List.lookup_cons, beq_eq_false_iff_ne.2 h]

theorem lookup_keeping_self (found : Option PermissionDomain) :
    (i.keeping x (.ok found)).memo.lookup x = some found :=
  List.lookup_cons_self

theorem lookup_keeping_congr (h : i'.memo.lookup x = i.memo.lookup x) :
    (i'.keeping x r).memo.lookup x = (i.keeping x r).memo.lookup x := by
  cases r with
  | error e => exact h
  | ok found => rw [lookup_keeping_self, lookup_keeping_self]

end GrantIndex

namespace OpenIndex

variable {c : Value} {s : Session} {o o' o'' : OpenIndex} {x y : String}
  {found : Option PermissionDomain}

/-- What is remembered is answered, and nothing happens. -/
theorem ask_of_lookup (h : o.index.memo.lookup x = some found) : o.ask x = (.ok found, o) := by
  rw [ask, GrantIndex.grants, h]
  rfl

/-- What is not remembered is read. -/
theorem ask_of_unread (hc : o.index.context.mapping?.isSome) (h : o.index.memo.lookup x = none) :
    o.ask x = (Context.offer o.index.context o.session x,
      ⟨o.index.keeping x (Context.offer o.index.context o.session x),
        (o.session.drainedAt o.index.context x).emit
          (Context.readingEvents o.index.context o.session x)⟩) := by
  rw [ask, GrantIndex.grants, h]
  simp only [GrantIndex.outcome_read hc]
  cases Context.offer o.index.context o.session x <;> rfl

theorem ask_result (hc : o.index.context.mapping?.isSome) :
    (o.ask x).1 = o.index.yields o.session x := by
  rw [GrantIndex.yields]
  cases h : o.index.memo.lookup x with
  | some found => rw [ask_of_lookup h]
  | none => rw [ask_of_unread hc h]

theorem context_ask (hc : o.index.context.mapping?.isSome) :
    (o.ask x).2.index.context = o.index.context := by
  cases hm : o.index.memo.lookup x with
  | some found => rw [ask_of_lookup hm]
  | none => rw [ask_of_unread hc hm, GrantIndex.context_keeping]

theorem context_after (hc : o.index.context.mapping?.isSome) (xs : List String) :
    (o.after xs).index.context = o.index.context := by
  induction xs generalizing o with
  | nil => rfl
  | cons x xs ih => exact (ih (by rwa [context_ask hc])).trans (context_ask hc)

/-- What is answered is remembered. -/
theorem lookup_of_ask_ok (hc : o.index.context.mapping?.isSome) (h : (o.ask x).1 = .ok found) :
    (o.ask x).2.index.memo.lookup x = some found := by
  cases hm : o.index.memo.lookup x with
  | some found' =>
    rw [ask_of_lookup hm] at h ⊢
    rw [hm, Except.ok.inj h]
  | none =>
    rw [ask_of_unread hc hm] at h ⊢
    rw [show Context.offer o.index.context o.session x = .ok found from h,
      GrantIndex.lookup_keeping_self]

/-- What fails leaves the index as it was. -/
theorem index_of_ask_error {e : Failure} (hc : o.index.context.mapping?.isSome)
    (h : (o.ask x).1 = .error e) : (o.ask x).2.index = o.index := by
  cases hm : o.index.memo.lookup x with
  | some found => rw [ask_of_lookup hm]
  | none =>
    rw [ask_of_unread hc hm] at h ⊢
    rw [show Context.offer o.index.context o.session x = .error e from h, GrantIndex.keeping]

/-- What is remembered for a scope stays, whatever is asked. -/
theorem lookup_ask (hc : o.index.context.mapping?.isSome)
    (h : o.index.memo.lookup x = some found) (y : String) :
    (o.ask y).2.index.memo.lookup x = some found := by
  cases hm : o.index.memo.lookup y with
  | some found' => rwa [ask_of_lookup hm]
  | none =>
    have hxy : x ≠ y := by
      rintro rfl
      rw [hm] at h
      cases h
    rwa [ask_of_unread hc hm, GrantIndex.lookup_keeping_of_ne hxy]

theorem lookup_after (hc : o.index.context.mapping?.isSome)
    (h : o.index.memo.lookup x = some found) (ys : List String) :
    (o.after ys).index.memo.lookup x = some found := by
  induction ys generalizing o with
  | nil => exact h
  | cons y ys ih => exact ih (by rwa [context_ask hc]) (lookup_ask hc h y)

/-! ## What counts for a scope -/

/-- All that counts for the scope is the same in both indices on the context. -/
structure SameFor (c : Value) (y : String) (o o' : OpenIndex) : Prop where
  left : o.index.context = c
  right : o'.index.context = c
  memo : o'.index.memo.lookup y = o.index.memo.lookup y
  lists : o'.session.lists = o.session.lists
  source : ∀ id, Context.source? c y = some id →
    o'.session.source id = o.session.source id

theorem SameFor.refl (h : o.index.context = c) (y : String) : SameFor c y o o :=
  ⟨h, h, rfl, rfl, fun _ _ => rfl⟩

theorem SameFor.symm (h : SameFor c y o o') : SameFor c y o' o :=
  ⟨h.right, h.left, h.memo.symm, h.lists.symm, fun id hid => (h.source id hid).symm⟩

theorem SameFor.trans (h : SameFor c y o o') (h' : SameFor c y o' o'') : SameFor c y o o'' :=
  ⟨h.left, h'.right, h'.memo.trans h.memo, h'.lists.trans h.lists,
    fun id hid => (h'.source id hid).trans (h.source id hid)⟩

theorem SameFor.offer_eq (h : SameFor c y o o') :
    Context.offer c o'.session y = Context.offer c o.session y :=
  Context.offer_congr h.lists h.source

theorem SameFor.yields_eq (h : SameFor c y o o') :
    o'.index.yields o'.session y = o.index.yields o.session y := by
  rw [GrantIndex.yields, GrantIndex.yields, h.memo, h.left, h.right, h.offer_eq]

/-- Asking for another scope changes nothing that counts for the scope. -/
theorem sameFor_ask_of_ne (hc : c.mapping?.isSome) (hu : ∀ xs, Context.Unshared c xs)
    (ho : o.index.context = c) (hyx : y ≠ x) : SameFor c y o (o.ask x).2 := by
  subst ho
  cases hm : o.index.memo.lookup x with
  | some found =>
    rw [ask_of_lookup hm]
    exact .refl rfl y
  | none =>
    rw [ask_of_unread hc hm]
    exact ⟨rfl, GrantIndex.context_keeping, GrantIndex.lookup_keeping_of_ne hyx,
      Session.lists_drainedAt .., fun id => Context.source_drainedAt fun id =>
        hu [x, y] x (by simp) y (by simp) hyx id⟩

/-- Asked for the scope, both indices come to the same in the same course, and all that counts for
the scope stays the same in both. -/
theorem SameFor.ask (hc : c.mapping?.isSome) (h : SameFor c y o o') :
    SameFor c y (o.ask y).2 (o'.ask y).2 ∧ (o'.ask y).1 = (o.ask y).1 ∧
      ∃ es : List Event, (o.ask y).2.session.trace = o.session.trace ++ es.toArray ∧
        (o'.ask y).2.session.trace = o'.session.trace ++ es.toArray := by
  obtain ⟨rfl, hright, hmemo, hlists, hsource⟩ := h
  cases hm : o.index.memo.lookup y with
  | some found =>
    rw [ask_of_lookup hm, ask_of_lookup (hmemo.trans hm)]
    exact ⟨⟨rfl, hright, hmemo, hlists, hsource⟩, rfl, [], by simp, by simp⟩
  | none =>
    have hoffer := Context.offer_congr hlists hsource
    rw [ask_of_unread hc hm, ask_of_unread (hright ▸ hc) (hmemo.trans hm), hright, hoffer,
      Context.readingEvents_congr hlists hsource]
    refine ⟨⟨GrantIndex.context_keeping, GrantIndex.context_keeping.trans hright,
      GrantIndex.lookup_keeping_congr hmemo, ?_, fun id hid => ?_⟩, rfl,
      Context.readingEvents o.index.context o.session y, by simp, by simp⟩
    · simpa using hlists
    · -- from a source under the scope itself the same is drawn on both sides
      simp only [Session.source_emit, Context.source_drainedAt_self hid, hlists, hsource id hid]

/-- What counts for the scope stays the same in both indices, whatever both are asked. -/
theorem SameFor.after (hc : c.mapping?.isSome) (hu : ∀ xs, Context.Unshared c xs)
    (h : SameFor c y o o') (xs : List String) : SameFor c y (o.after xs) (o'.after xs) := by
  induction xs generalizing o o' with
  | nil => exact h
  | cons x xs ih =>
    refine ih ?_
    by_cases hyx : y = x
    · exact hyx ▸ (h.ask hc).1
    · exact ((sameFor_ask_of_ne hc hu h.left hyx).symm.trans h).trans
        (sameFor_ask_of_ne hc hu h.right hyx)

/-! ## What the index yields in the course of time -/

/-- As long as the index yields for a scope what the scope offered at the start, asking for whatever
scope leaves it so. -/
theorem yields_ask (hc : c.mapping?.isSome) (hu : ∀ xs, Context.Unshared c xs)
    (hs : Context.Steady c s x) (ho : o.index.context = c)
    (h : o.index.yields o.session x = Context.offer c s x) (y : String) :
    (o.ask y).2.index.yields (o.ask y).2.session x = Context.offer c s x := by
  by_cases hxy : x = y
  · subst hxy ho
    cases hm : o.index.memo.lookup x with
    | some found => rwa [ask_of_lookup hm]
    | none =>
      have hoffer : Context.offer o.index.context o.session x =
          Context.offer o.index.context s x := by
        rwa [GrantIndex.yields, hm] at h
      rw [ask_of_unread hc hm, hoffer]
      cases he : Context.offer o.index.context s x with
      | ok found => exact GrantIndex.yields_remembering_self found
      | error e =>
        obtain ⟨v, hv, hr⟩ := Context.unreadable_of_offer_error he hs
        have hd : o.session.drainedAt o.index.context x = o.session := by
          rw [Session.drainedAt, hv]
          exact o.session.drained_of_unreadable hr
        rw [hd, GrantIndex.keeping, GrantIndex.yields, hm]
        exact hoffer.trans he
  · rw [(sameFor_ask_of_ne hc hu ho hxy).yields_eq, h]

/-- So after whatever has been asked the index yields for a scope what the scope offered at the
start. -/
theorem yields_after (hc : c.mapping?.isSome) (hu : ∀ xs, Context.Unshared c xs)
    (hs : Context.Steady c s x) (ho : o.index.context = c)
    (h : o.index.yields o.session x = Context.offer c s x) (ys : List String) :
    (o.after ys).index.yields (o.after ys).session x = Context.offer c s x := by
  induction ys generalizing o with
  | nil => exact h
  | cons y ys ih =>
    exact ih ((context_ask (ho ▸ hc)).trans ho) (yields_ask hc hu hs ho h y)

/-! ## An index in use -/

variable (c s o x)

/-- What is certain of asking an index for the scope, where its context is `c` and its session was
`s` at the start. -/
structure Reliable : Prop where
  /-- It answers, and the answer tells what a lookup at the start would have found. -/
  answers : Context.Steady c s x → ∀ l, ((Context.lookup c x).outcome s).1 = .ok l →
    ∃ found, (o.ask x).1 = .ok found ∧ l.Told found
  /-- It fails as a lookup at the start would have failed. -/
  fails : Context.Steady c s x → ∀ e, ((Context.lookup c x).outcome s).1 = .error e →
    (o.ask x).1 = .error e
  /-- An answer is the answer from then on, and giving it again changes nothing. -/
  remembers : ∀ found, (o.ask x).1 = .ok found → ∀ later,
    ((o.ask x).2.after later).ask x = (.ok found, (o.ask x).2.after later)
  /-- A failure leaves all that is remembered. -/
  keeps : ∀ e, (o.ask x).1 = .error e → (o.ask x).2.index.memo = o.index.memo
  /-- Whatever has come of it, asking for any other scope at any later time comes to what it would
  have come to otherwise, with the same events. -/
  independent : ∀ y, y ≠ x → ∀ later,
    (((o.ask x).2.after later).ask y).1 = ((o.after later).ask y).1 ∧
      ∃ es : List Event,
        ((o.after later).ask y).2.session.trace = (o.after later).session.trace ++ es.toArray ∧
        (((o.ask x).2.after later).ask y).2.session.trace =
          ((o.ask x).2.after later).session.trace ++ es.toArray
  /-- What is refused is refused from then on. -/
  insists : Context.Steady c s x → ∀ f, (o.ask x).1 = .error (.invalidContext f) → ∀ later,
    (((o.ask x).2.after later).ask x).1 = .error (.invalidContext f)

variable {c s o x}

/-- Where the index still yields what the scope offered at the start, it answers or fails as a
lookup at the start. -/
theorem ask_eq_lookup (hc : c.mapping?.isSome) (ho : o.index.context = c)
    (h : o.index.yields o.session x = Context.offer c s x) :
    (o.ask x).1 = ((Context.lookup c x).outcome s).1 >>= Lookup.granted? := by
  rw [ask_result (ho ▸ hc), h, Context.outcome_lookup hc, Context.offer]

/-- An index is reliable for a scope as long as it yields what the scope offered at the start. -/
theorem reliable_of_yields (hc : c.mapping?.isSome) (hu : ∀ xs, Context.Unshared c xs)
    (ho : o.index.context = c)
    (h : Context.Steady c s x → o.index.yields o.session x = Context.offer c s x) :
    Reliable c s o x where
  answers hs l hl := by
    have hstate : Context.stateIn c s x = .ok l := (Context.outcome_lookup hc s x).symm.trans hl
    rw [ask_eq_lookup hc ho (h hs), hl]
    exact ⟨_, Lookup.granted?_of_fixed (hs.fixed hstate), l.told⟩
  fails hs e he := by
    rw [ask_eq_lookup hc ho (h hs), he]
    rfl
  remembers found hfound later := by
    have hoc : o.index.context.mapping?.isSome := ho ▸ hc
    have hremembered := lookup_of_ask_ok hoc hfound
    exact ask_of_lookup (lookup_after (by rwa [context_ask hoc]) hremembered later)
  keeps e he := by rw [index_of_ask_error (ho ▸ hc) he]
  independent y hyx later :=
    (((sameFor_ask_of_ne hc hu ho hyx).after hc hu later).ask hc).2
  insists hs f hf later := by
    have ho' : (o.ask x).2.index.context = c := (context_ask (ho ▸ hc)).trans ho
    have hlater := yields_after hc hu hs ho' (yields_ask hc hu hs ho (h hs) x) later
    rw [ask_result (ho ▸ hc), h hs] at hf
    rw [ask_result ((context_after (ho' ▸ hc) later).trans ho' ▸ hc), hlater, hf]

end OpenIndex

end Clearance
