import Clearance.Proofs.Verdict

/-!
# A scope is read once

Many leaves of a tree may ask for one scope, and which of them is reached first depends on the
answers before it. The context is asked for the scope once all the same. What one evaluation of a
plain tree leaves in the trace is the readings of different scopes, one after the other
(`Context.readings`), whether it ends in an answer or in a failure: `Recalls` holds at the start,
is kept by a leaf, and so by a tree. The index remembers exactly the scopes read so far, hence a
scope that it does not know is a new one. A reading that fails is not remembered, but then it is
the last one.

All that is said of the trace in `ReadOnce` follows from its being such a sequence of readings.
-/

namespace Clearance

/-! ## Traces -/

namespace Event

/-- The key that is looked for, if the event is such a look. -/
def tested? : Event → Option String
  | .look _ (.tested x) => some x
  | _ => none

/-- The key under which something is fetched, if the event is such a look. -/
def fetched? : Event → Option String
  | .look _ (.fetched x) => some x
  | _ => none

/-- The scope that is reported absent, if one is. -/
def absent? : Event → Option String
  | .logged (.absentScope x) => some x
  | _ => none

/-- An item is drawn, or a routine is called on its behalf. -/
def OfItem : Event → Prop
  | .produced | .called _ => True
  | _ => False

theorem look_notMem {es : List Event} (h : ∀ e ∈ es, e.OfItem) (v : Value) (l : Look) :
    .look v l ∉ es :=
  fun hm => h _ hm

theorem logged_notMem {es : List Event} (h : ∀ e ∈ es, e.OfItem) (r : Record) :
    .logged r ∉ es :=
  fun hm => h _ hm

/-- What counts neither items nor calls finds nothing. -/
theorem filterMap_ofItem {f : Event → Option String} {es : List Event}
    (hf : ∀ e : Event, e.OfItem → f e = none) (h : ∀ e ∈ es, e.OfItem) : es.filterMap f = [] :=
  List.filterMap_eq_nil_iff.2 fun e he => hf e (h e he)

theorem tested?_ofItem {e : Event} (h : e.OfItem) : e.tested? = none := by
  cases e <;> first | rfl | cases h

theorem fetched?_ofItem {e : Event} (h : e.OfItem) : e.fetched? = none := by
  cases e <;> first | rfl | cases h

theorem absent?_ofItem {e : Event} (h : e.OfItem) : e.absent? = none := by
  cases e <;> first | rfl | cases h

/-- The keys on behalf of which something is gone through, directly after it is fetched. -/
def traversedFor : List Event → List String
  | .look _ (.fetched x) :: .look _ .traversed :: es => x :: traversedFor es
  | _ :: es => traversedFor es
  | [] => []

/-- What is gone through on behalf of a key is fetched before. -/
theorem traversedFor_sublist (es : List Event) :
    (traversedFor es).Sublist (es.filterMap fetched?) := by
  fun_induction traversedFor es with
  | case1 v x w es ih => exact ih.cons_cons x
  | case2 e es h ih =>
    rw [List.filterMap_cons]
    cases e.fetched? with
    | none => exact ih
    | some x => exact ih.cons x
  | case3 => exact List.Sublist.refl _

end Event

/-- The events are those of reading scopes among `xs` from the context, each at most once. -/
structure ReadOnce (c : Value) (xs : List String) (es : List Event) : Prop where
  /-- No scope is looked for twice, and none but those among `xs`. -/
  tested_nodup : (es.filterMap Event.tested?).Nodup
  tested_mem : ∀ v x, .look v (.tested x) ∈ es → v = c ∧ x ∈ xs
  /-- No scope is fetched twice, and each only directly after it has been found. -/
  fetched_nodup : (es.filterMap Event.fetched?).Nodup
  fetched : ∀ v x pre post, es = pre ++ .look v (.fetched x) :: post →
    v = c ∧ (Context.under? c x).isSome ∧ ∃ pre', pre = pre' ++ [.look c (.tested x)]
  /-- The context is not gone through. -/
  not_traversed : .look c .traversed ∉ es
  /-- What is gone through is what has just been fetched, and this at most once for a scope. -/
  traversed_nodup : (Event.traversedFor es).Nodup
  traversed : ∀ v pre post, es = pre ++ .look v .traversed :: post →
    ∃ x pre', pre = pre' ++ [.look c (.fetched x)] ∧ Context.under? c x = some v
  /-- No scope is reported absent twice. Reported are those that are looked for and missing. -/
  absent_nodup : (es.filterMap Event.absent?).Nodup
  absent : ∀ x, .logged (.absentScope x) ∈ es ↔
    .look c (.tested x) ∈ es ∧ Context.under? c x = none

/-- Going through a value leaves nothing, or it comes before all that is done to the items. -/
theorem Value.traversal_cases (v : Value) (s : Session) :
    v.traversal s = [] ∨
      ∃ fs, v.traversal s = .look v .traversed :: fs ∧ ∀ e ∈ fs, e.OfItem := by
  unfold traversal Handling.eventsIn
  cases Iteration.of? v with
  | none => exact .inl rfl
  | some it =>
    refine .inr ⟨_, rfl, fun e he => ?_⟩
    obtain ⟨x, -, hx⟩ := List.mem_flatMap.1 he
    have hcalled : ∀ e ∈ (Handling.identifying s.lists).events x, e.OfItem := by
      intro e he
      obtain ⟨name, -, rfl⟩ := List.mem_map.1 he
      exact trivial
    split at hx
    · exact List.forall_mem_cons.2 ⟨trivial, hcalled⟩ e hx
    · exact hcalled e hx

namespace Context

variable {c v w : Value} {s : Session} {x y : String} {e : Event} {pre post : List Event}

/-! ## One reading -/

/-- The events of a reading: the scope is missing, or what is under it is fetched and then left
as it is or gone through. -/
theorem readingEvents_cases (c : Value) (s : Session) (x : String) :
    under? c x = none ∧
        readingEvents c s x = [.look c (.tested x), .logged (.absentScope x)] ∨
      ∃ v es, under? c x = some v ∧
        readingEvents c s x = .look c (.tested x) :: .look c (.fetched x) :: es ∧
        (es = [] ∨ ∃ fs, es = .look v .traversed :: fs ∧ ∀ e ∈ fs, e.OfItem) := by
  rcases hv : under? c x with _ | v
  · exact .inl ⟨rfl, by simp [readingEvents, lookEvents, hv]⟩
  refine .inr ⟨v, if v.isUnreadable then [] else v.traversal s, rfl, ?_, ?_⟩
  · simp [readingEvents, lookEvents, hv]
  · cases v.isUnreadable with
    | true => exact .inl rfl
    | false => exact v.traversal_cases s

/-- What the mapping has under a scope is a part of it. -/
theorem sizeOf_lt_of_under? (h : under? c x = some v) : sizeOf v < sizeOf c := by
  obtain ⟨⟨k, entries⟩, hm, hb⟩ := Option.bind_eq_some_iff.1 h
  obtain ⟨r, hr, rfl⟩ := Option.map_eq_some_iff.1 hb
  have hlt := List.sizeOf_lt_of_mem (List.mem_of_find?_eq_some hr)
  unfold Value.mapping? at hm
  split at hm
  · cases hm
    obtain ⟨a, b⟩ := r
    simp only [Prod.mk.sizeOf_spec, Value.mapping.sizeOf_spec] at hlt ⊢
    omega
  · cases hm

/-- In a reading the fetch comes after the look that found the scope. -/
theorem readingEvents_fetched (h : readingEvents c s x = pre ++ .look v (.fetched y) :: post) :
    v = c ∧ (under? c y).isSome ∧ pre = [.look c (.tested y)] := by
  rcases readingEvents_cases c s x with ⟨-, he⟩ | ⟨w, es, hu, he, hes⟩ <;> rw [he] at h
  · match pre, h with
    | [], h => cases h
    | [_], h => cases h
    | [_, _], h => cases h
  · match pre, h with
    | [], h => cases h
    | [_], h =>
      cases h
      exact ⟨rfl, by rw [hu]; rfl, rfl⟩
    | _ :: _ :: pre, h =>
      have hm : .look v (.fetched y) ∈ es := by
        simp only [List.cons_append, List.cons.injEq] at h
        rw [h.2.2]
        exact List.mem_append_cons_self
      rcases hes with rfl | ⟨fs, rfl, hfs⟩
      · cases hm
      · rcases List.mem_cons.1 hm with hm | hm
        · cases hm
        · exact absurd hm (Event.look_notMem hfs _ _)

/-- In a reading what is gone through comes after its fetch. -/
theorem readingEvents_traversed (h : readingEvents c s x = pre ++ .look v .traversed :: post) :
    under? c x = some v ∧ pre = [.look c (.tested x), .look c (.fetched x)] := by
  rcases readingEvents_cases c s x with ⟨-, he⟩ | ⟨w, es, hu, he, hes⟩ <;> rw [he] at h
  · match pre, h with
    | [], h => cases h
    | [_], h => cases h
    | [_, _], h => cases h
  · match pre, h with
    | [], h => cases h
    | [_], h => cases h
    | _ :: _ :: pre, h =>
      simp only [List.cons_append, List.cons.injEq] at h
      obtain ⟨rfl, rfl, h⟩ := h
      rcases hes with rfl | ⟨fs, rfl, hfs⟩
      · cases pre <;> cases h
      · match pre, h with
        | [], h =>
          cases h
          exact ⟨hu, rfl⟩
        | _ :: pre, h =>
          have hm : .look v .traversed ∈ fs := by
            rw [(List.cons.inj h).2]
            exact List.mem_append_cons_self
          exact absurd hm (Event.look_notMem hfs _ _)

/-! ## A sequence of readings -/

/-- The events of reading scopes one after the other, each in a session of its own. -/
def readings (c : Value) (rs : List (String × Session)) : List Event :=
  rs.flatMap fun r => readingEvents c r.2 r.1

variable {rs : List (String × Session)}

theorem readings_cons (r : String × Session) (rs : List (String × Session)) :
    readings c (r :: rs) = readingEvents c r.2 r.1 ++ readings c rs :=
  List.flatMap_cons

/-- If a reading has one event of a kind or none, by its scope, a sequence of readings has them
for these scopes, in order. -/
theorem filterMap_readings {f : Event → Option String} {P : String → Bool}
    (h : ∀ s x, (readingEvents c s x).filterMap f = if P x then [x] else []) :
    (readings c rs).filterMap f = (rs.map Prod.fst).filter P := by
  induction rs with
  | nil => rfl
  | cons r rs ih =>
    rw [readings_cons, List.filterMap_append, h, ih, List.map_cons, List.filter_cons]
    cases P r.1 <;> rfl

theorem tested_readings : (readings c rs).filterMap Event.tested? = rs.map Prod.fst := by
  refine (filterMap_readings (P := fun _ => true) fun s x => ?_).trans
    (List.filter_eq_self.2 fun _ _ => rfl)
  rcases readingEvents_cases c s x with ⟨hu, he⟩ | ⟨v, es, hu, he, rfl | ⟨fs, rfl, hfs⟩⟩
  · simp [he, List.filterMap_cons, Event.tested?]
  · simp [he, List.filterMap_cons, Event.tested?]
  · have hnone := Event.filterMap_ofItem (fun _ => Event.tested?_ofItem) hfs
    simp [he, List.filterMap_cons, Event.tested?, hnone]

theorem fetched_readings : (readings c rs).filterMap Event.fetched? =
    (rs.map Prod.fst).filter fun x => (under? c x).isSome := by
  refine filterMap_readings fun s x => ?_
  rcases readingEvents_cases c s x with ⟨hu, he⟩ | ⟨v, es, hu, he, rfl | ⟨fs, rfl, hfs⟩⟩
  · simp [he, hu, List.filterMap_cons, Event.fetched?]
  · simp [he, hu, List.filterMap_cons, Event.fetched?]
  · have hnone := Event.filterMap_ofItem (fun _ => Event.fetched?_ofItem) hfs
    simp [he, hu, List.filterMap_cons, Event.fetched?, hnone]

theorem absent_readings : (readings c rs).filterMap Event.absent? =
    (rs.map Prod.fst).filter fun x => (under? c x).isNone := by
  refine filterMap_readings fun s x => ?_
  rcases readingEvents_cases c s x with ⟨hu, he⟩ | ⟨v, es, hu, he, rfl | ⟨fs, rfl, hfs⟩⟩
  · simp [he, hu, List.filterMap_cons, Event.absent?]
  · simp [he, hu, List.filterMap_cons, Event.absent?]
  · have hnone := Event.filterMap_ofItem (fun _ => Event.absent?_ofItem) hfs
    simp [he, hu, List.filterMap_cons, Event.absent?, hnone]

/-- An event in a sequence of readings is in one of them. -/
theorem readings_eq_append_cons (h : readings c rs = pre ++ e :: post) :
    ∃ r ∈ rs, ∃ before pre' post', pre = before ++ pre' ∧
      readingEvents c r.2 r.1 = pre' ++ e :: post' := by
  induction rs generalizing pre with
  | nil => simp [readings] at h
  | cons r rs ih =>
    have hrest : ∀ pre₁, readings c rs = pre₁ ++ e :: post → pre = readingEvents c r.2 r.1 ++ pre₁ →
        ∃ q ∈ r :: rs, ∃ before pre' post', pre = before ++ pre' ∧
          readingEvents c q.2 q.1 = pre' ++ e :: post' := by
      intro pre₁ h₁ hpre
      obtain ⟨q, hq, before, pre', post', rfl, he⟩ := ih h₁
      exact ⟨q, List.mem_cons_of_mem r hq, _, pre', post', by rw [hpre, List.append_assoc], he⟩
    rw [readings_cons] at h
    rcases List.append_eq_append_iff.1 h with ⟨pre₁, hpre, h₁⟩ | ⟨rest, he, h₁⟩
    · exact hrest pre₁ h₁ hpre
    · cases rest with
      | nil => exact hrest [] h₁.symm (by rw [he, List.append_assoc]; simp)
      | cons e' post' =>
        obtain ⟨rfl, -⟩ := List.cons.inj h₁
        exact ⟨r, List.mem_cons_self, [], pre, post', rfl, he⟩

/-- What is among the events of a sequence of readings is among those of one of them. -/
theorem mem_readings : e ∈ readings c rs ↔ ∃ r ∈ rs, e ∈ readingEvents c r.2 r.1 :=
  List.mem_flatMap

theorem tested_mem_readings :
    .look v (.tested x) ∈ readings c rs ↔ v = c ∧ x ∈ rs.map Prod.fst := by
  have hr : ∀ r : String × Session,
      .look v (.tested x) ∈ readingEvents c r.2 r.1 ↔ v = c ∧ x = r.1 := by
    intro r
    rcases readingEvents_cases c r.2 r.1 with ⟨hu, he⟩ | ⟨w, es, hu, he, rfl | ⟨fs, rfl, hfs⟩⟩
    · simp [he]
    · simp [he]
    · simp [he, Event.look_notMem hfs]
  simp only [mem_readings, hr, List.mem_map]
  grind

theorem absent_mem_readings :
    .logged (.absentScope x) ∈ readings c rs ↔ x ∈ rs.map Prod.fst ∧ under? c x = none := by
  have hr : ∀ r : String × Session,
      .logged (.absentScope x) ∈ readingEvents c r.2 r.1 ↔ x = r.1 ∧ under? c r.1 = none := by
    intro r
    rcases readingEvents_cases c r.2 r.1 with ⟨hu, he⟩ | ⟨w, es, hu, he, rfl | ⟨fs, rfl, hfs⟩⟩
    · simp [he, hu]
    · simp [he, hu]
    · simp [he, hu, Event.logged_notMem hfs]
  simp only [mem_readings, hr, List.mem_map]
  grind

/-- Readings of different scopes, all of them among `xs`, read each scope once. -/
theorem readOnce_readings {xs : List String} (hn : (rs.map Prod.fst).Nodup)
    (hx : ∀ x ∈ rs.map Prod.fst, x ∈ xs) : ReadOnce c xs (readings c rs) := by
  have hf : ((readings c rs).filterMap Event.fetched?).Nodup := by
    rw [fetched_readings]
    exact hn.filter _
  have ht : ∀ v pre post, readings c rs = pre ++ .look v .traversed :: post →
      ∃ x pre', pre = pre' ++ [.look c (.fetched x)] ∧ under? c x = some v := by
    intro v pre post h
    obtain ⟨r, -, before, pre', post', rfl, he⟩ := readings_eq_append_cons h
    obtain ⟨hv, rfl⟩ := readingEvents_traversed he
    exact ⟨r.1, before ++ [.look c (.tested r.1)], by simp, hv⟩
  refine
    { tested_nodup := by rwa [tested_readings]
      tested_mem := fun v x h => (tested_mem_readings.1 h).imp_right (hx x)
      fetched_nodup := hf
      fetched := ?_
      not_traversed := ?_
      traversed_nodup := hf.sublist (Event.traversedFor_sublist _)
      traversed := ht
      absent_nodup := by
        rw [absent_readings]
        exact hn.filter _
      absent := fun x => by
        rw [absent_mem_readings, tested_mem_readings, and_iff_right rfl] }
  · intro v x pre post h
    obtain ⟨r, -, before, pre', post', rfl, he⟩ := readings_eq_append_cons h
    obtain ⟨rfl, hu, rfl⟩ := readingEvents_fetched he
    exact ⟨rfl, hu, before, rfl⟩
  · -- what is gone through is a part of the context
    intro h
    obtain ⟨pre, post, h⟩ := List.append_of_mem h
    obtain ⟨x, -, -, hc⟩ := ht c pre post h
    exact Nat.lt_irrefl _ (sizeOf_lt_of_under? hc)

end Context

/-! ## A tree -/

/-- The trace has grown by readings of different scopes among `xs`. -/
structure Recounts (c : Value) (xs : List String) (s : Session) (rs : List (String × Session))
    (t : Session) : Prop where
  trace : t.trace = s.trace ++ (Context.readings c rs).toArray
  nodup : (rs.map Prod.fst).Nodup
  mem : ∀ x ∈ rs.map Prod.fst, x ∈ xs

/-- The index is one on the context, and the trace has grown by readings of the scopes that it
remembers. -/
structure Recalls (c : Value) (xs : List String) (s : Session) (i : GrantIndex) (t : Session) :
    Prop where
  context : i.context = c
  recounts : ∃ rs, Recounts c xs s rs t ∧
    ∀ x ∈ rs.map Prod.fst, (i.memo.lookup x).isSome

variable {c : Value} {xs : List String} {s t : Session} {rs : List (String × Session)}
  {i : GrantIndex} {x : String} {l : Leaf}

theorem Recalls.start (c : Value) (xs : List String) (s : Session) :
    Recalls c xs s { context := c } s where
  context := rfl
  recounts := ⟨[], ⟨by simp [Context.readings], .nil, nofun⟩, nofun⟩

/-- The reading of a scope that has not been read is one more reading. -/
theorem Recounts.read (h : Recounts c xs s rs t) (hx : x ∈ xs) (hn : x ∉ rs.map Prod.fst) :
    Recounts c xs s (rs ++ [(x, t)])
      ((t.drainedAt c x).emit (Context.readingEvents c t x)) where
  trace := by
    simp [Session.trace_drainedAt, h.trace, Context.readings]
  nodup := by
    rw [List.map_append, List.nodup_append]
    refine ⟨h.nodup, by simp, ?_⟩
    rintro y hy z hz rfl
    rw [List.mem_singleton.1 hz] at hy
    exact hn hy
  mem := by
    intro y hy
    rw [List.map_append, List.mem_append] at hy
    rcases hy with hy | hy
    · exact h.mem y hy
    · rw [List.mem_singleton.1 hy]
      exact hx

/-- Asking an index for a scope keeps what it recalls, and if the reading fails it is the last
one. -/
theorem Recalls.grants_ends (h : Recalls c xs s i t) (hc : c.mapping?.isSome) (hx : x ∈ xs) :
    (i.grants x).Ends t (fun r t' => Recalls c xs s r.2 t')
      (fun _ t' => ∃ rs, Recounts c xs s rs t') := by
  obtain ⟨rs, hrs, hm⟩ := h.recounts
  obtain rfl := h.context
  unfold Run.Ends GrantIndex.grants
  cases hi : i.memo.lookup x with
  | some found => exact h
  | none =>
    have hn : x ∉ rs.map Prod.fst := by
      intro hx
      have := hm x hx
      rw [hi] at this
      cases this
    have hread := hrs.read hx hn
    simp only [GrantIndex.outcome_read hc]
    cases Context.offer i.context t x with
    | error e => exact ⟨_, hread⟩
    | ok found =>
      refine ⟨rfl, _, hread, fun y hy => ?_⟩
      rw [List.map_append, List.mem_append] at hy
      show (((x, found) :: i.memo).lookup y).isSome
      rw [List.lookup_cons]
      rcases hy with hy | hy
      · cases y == x with
        | true => rfl
        | false => exact hm y hy
      · rw [List.mem_singleton.1 hy, beq_self_eq_true]
        rfl

/-- A leaf keeps what the index recalls. -/
theorem Recalls.check_ends (hl : ∀ x, l.scope = some x → x ∈ xs) (h : Recalls c xs s i t)
    (hc : c.mapping?.isSome) :
    (l.check i).Ends t (fun r t' => Recalls c xs s r.2 t')
      (fun _ t' => ∃ rs, Recounts c xs s rs t') := by
  rw [Leaf.check]
  rcases hx : l.scope with _ | x
  · exact .pure h
  rcases l.permission with _ | p
  · exact .pure h
  exact .bind (h.grants_ends hc (hl x hx)) fun _ _ h => .pure h

namespace Predicate

/-- In whatever session a plain tree is evaluated, on whatever context, and whatever comes of it,
the trace grows by the events of reading scopes of the tree once. -/
theorem evaluate_readOnce (p : Predicate) (hp : p.Plain) (c : Value) (s : Session) :
    ∃ es, ((p.evaluate c).outcome s).2.trace = s.trace ++ es.toArray ∧ ReadOnce c p.scopes es := by
  have hask : ∀ a ∈ p.atoms, ∀ ix t, Shares c (Recalls c p.scopes s) ix t →
      (a.ask c ix).Ends t (fun r t' => Shares c (Recalls c p.scopes s) r.2 t')
        (fun _ t' => ∃ rs, Recounts c p.scopes s rs t') := by
    intro a ha ix t h
    obtain ⟨l, rfl⟩ := hp a ha
    have hl : ∀ x, l.scope = some x → x ∈ p.scopes := fun x hx => mem_scopes_of_leaf ha hx
    have hnone : ∃ rs, Recounts c p.scopes s rs t := h.holds.recounts.imp fun _ h => h.1
    refine (h.ask_leaf_ends (Q := fun _ => True) (fun i hc hi => ?_) fun _ => hnone).imp
      (fun _ _ h => h.2) fun _ _ => id
    exact (hi.check_ends hl hc).imp (fun _ _ h => ⟨trivial, h⟩) fun _ _ => id
  have hjudge := judge_keeps hask (.start (Recalls.start c p.scopes s))
  obtain ⟨rs, hrs⟩ : ∃ rs, Recounts c p.scopes s rs ((p.evaluate c).outcome s).2 := by
    rw [evaluate_eq_judge, Run.outcome_map]
    unfold Run.Ends at hjudge
    rcases hr : (judge c p none).outcome s with ⟨e | r, t⟩ <;> rw [hr] at hjudge
    · exact hjudge
    · exact hjudge.holds.recounts.imp fun _ h => h.1
  exact ⟨_, hrs.trace, Context.readOnce_readings hrs.nodup hrs.mem⟩

/-- Three leaves ask for the scope whose grants are in a one-shot source, and two for the scope
that is missing. Each of the scopes is looked for once. -/
theorem evaluate_readOnce_one_shot :
    let p : Predicate := .group .anyOf
      [.group .allOf [.atom (.leaf ⟨.has, "user.READ", some "user", some "READ"⟩),
          .atom (.leaf ⟨.lacks, "team.READ", some "team", some "READ"⟩)],
        .group .allOf [.atom (.leaf ⟨.has, "user.READ", some "user", some "READ"⟩),
          .atom (.leaf ⟨.has, "lab.READ", some "lab", some "READ"⟩)],
        .atom (.leaf ⟨.has, "team.READ", some "team", some "READ"⟩),
        .atom (.leaf ⟨.lacks, "user.WRITE", some "user", some "WRITE"⟩)]
    let c : Value := .mapping (.watched 0) [(.text "user", .source 0), (.text "lab", .null)]
    let s : Session := { sources := [⟨[.text "READ", .text "LIST"], none⟩] }
    ∃ es, ((p.evaluate c).outcome s).2.trace = es.toArray ∧ ReadOnce c p.scopes es ∧
      es.filterMap Event.tested? = ["user", "team", "lab"] := by
  intro p c s
  have hp : p.Plain := by simp [Plain, p, atoms, atomsAll]
  obtain ⟨es, he, h⟩ := evaluate_readOnce p hp c s
  refine ⟨es, by simpa [s] using he, h, ?_⟩
  have hes : es = ((p.evaluate c).outcome s).2.trace.toList := by rw [he]; simp [s]
  rw [hes, evaluate_eq_judge]
  rfl

end Predicate

end Clearance
