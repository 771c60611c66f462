import Clearance.Run

/-!
# What a run comes to

`Run.outcome` is the result of a run in a session together with the session after it. The outcome
of a composite run follows from those of its parts (`Run.outcome_bind`, `Run.outcome_map`). The
primitive runs add an event to the session (`Session.emit`), put a source into a state or leave
the session as it is. Where only some properties of an outcome matter, `Run.Ends` says what holds
when the run has a result and what holds when it fails.
-/

namespace Clearance

/-! ## Results -/

section

variable {ε α β : Type} {x : Except ε α} {b : β}

theorem map_eq_ok {f : α → β} : x.map f = .ok b ↔ ∃ a, x = .ok a ∧ f a = b := by
  cases x with
  | error e => exact ⟨fun h => (by cases h), fun ⟨_, h, _⟩ => (by cases h)⟩
  | ok a => exact ⟨fun h => ⟨a, rfl, Except.ok.inj h⟩, fun ⟨_, h, hb⟩ => by cases h; exact hb ▸ rfl⟩

theorem bind_eq_ok {f : α → Except ε β} : x >>= f = .ok b ↔ ∃ a, x = .ok a ∧ f a = .ok b := by
  cases x with
  | error e => exact ⟨fun h => (by cases h), fun ⟨_, h, _⟩ => (by cases h)⟩
  | ok a => exact ⟨fun h => ⟨a, rfl, h⟩, fun ⟨_, h, hb⟩ => by cases h; exact hb⟩

end

/-! ## Sessions -/

/-- The record that is written into the log by the event, if one is. -/
def Event.record? : Event → Option Record
  | .logged r => some r
  | _ => none

namespace Session

/-- The session with more events in its trace. -/
def emit (s : Session) (es : List Event) : Session :=
  { s with trace := s.trace ++ es.toArray }

/-- The state of the source with the number. -/
def source (s : Session) (id : Nat) : Source :=
  (s.sources[id]?).getD .spent

/-- The session with the source in another state. -/
def put (s : Session) (id : Nat) (x : Source) : Session :=
  { s with sources := s.sources.set id x }

/-- What has been written into the log, in order. -/
def records (s : Session) : List Record :=
  s.trace.toList.filterMap Event.record?

variable (s : Session) (es fs : List Event) (id : Nat)

@[simp] theorem emit_emit : (s.emit es).emit fs = s.emit (es ++ fs) := by
  simp [emit]

@[simp] theorem emit_nil : s.emit [] = s := by
  simp [emit]

@[simp] theorem sources_emit : (s.emit es).sources = s.sources :=
  rfl

@[simp] theorem lists_emit : (s.emit es).lists = s.lists :=
  rfl

@[simp] theorem trace_emit : (s.emit es).trace = s.trace ++ es.toArray :=
  rfl

@[simp] theorem records_emit : (s.emit es).records = s.records ++ es.filterMap Event.record? := by
  simp [records]

@[simp] theorem source_emit : (s.emit es).source id = s.source id :=
  rfl

@[simp] theorem put_emit (x : Source) : (s.emit es).put id x = (s.put id x).emit es :=
  rfl

@[simp] theorem put_put (x y : Source) : (s.put id x).put id y = s.put id y := by
  simp [put]

@[simp] theorem lists_put (x : Source) : (s.put id x).lists = s.lists :=
  rfl

@[simp] theorem trace_put (x : Source) : (s.put id x).trace = s.trace :=
  rfl

theorem source_put_of_ne {i j : Nat} (h : i ≠ j) (x : Source) :
    (s.put i x).source j = s.source j := by
  simp [source, put, List.getElem?_set_ne h]

/-- A source is in the state that it has been put into, which for what is no source is that of
one which yields nothing. -/
theorem source_put {x : Source} (h : s.source id = .spent → x = .spent) :
    (s.put id x).source id = x := by
  rw [source, put, List.getElem?_set_self']
  cases hs : s.sources[id]? with
  | none => exact (h (by rw [source, hs]; rfl)).symm
  | some y => rfl

/-- A source is not changed by being put into the state that it is in. -/
theorem put_source (s : Session) (id : Nat) : s.put id (s.source id) = s := by
  rw [put]
  congr
  refine List.ext_getElem? fun i => ?_
  by_cases hi : id = i
  · subst hi
    rw [List.getElem?_set_self', source]
    cases s.sources[id]? <;> rfl
  · rw [List.getElem?_set_ne hi]

end Session

/-! ## Outcomes -/

namespace Run

variable {α β : Type} (s : Session)

@[simp] theorem outcome_pure (a : α) : (pure a : Run α).outcome s = (.ok a, s) :=
  rfl

@[simp] theorem outcome_throw (e : Failure) : (throw e : Run α).outcome s = (.error e, s) :=
  rfl

/-- A run goes on with what came of its first part, and ends where that fails. -/
theorem outcome_bind (x : Run α) (f : α → Run β) :
    (x >>= f).outcome s =
      match x.outcome s with
      | (.ok a, t) => (f a).outcome t
      | (.error e, t) => (.error e, t) := by
  rw [outcome, ExceptT.run_bind, StateT.run_bind]
  show _ = match StateT.run (ExceptT.run x) s with
    | (.ok a, t) => (f a).outcome t
    | (.error e, t) => (.error e, t)
  rcases StateT.run (ExceptT.run x) s with ⟨_ | a, t⟩ <;> rfl

@[simp] theorem outcome_map (f : α → β) (x : Run α) :
    (f <$> x).outcome s = ((x.outcome s).1.map f, (x.outcome s).2) := by
  rw [map_eq_pure_bind, outcome_bind]
  rcases x.outcome s with ⟨_ | a, t⟩ <;> rfl

@[simp] theorem outcome_get : (get : Run Session).outcome s = (.ok s, s) :=
  rfl

@[simp] theorem outcome_record (e : Event) : (record e).outcome s = (.ok (), s.emit [e]) := by
  show (Except.ok (), { s with trace := s.trace.push e }) = _
  rw [Session.emit, Array.push_eq_append]

@[simp] theorem outcome_log (r : Record) : (log r).outcome s = (.ok (), s.emit [.logged r]) :=
  outcome_record s _

@[simp] theorem outcome_source (id : Nat) : (source id).outcome s = (.ok (s.source id), s) :=
  rfl

@[simp] theorem outcome_listed (id : Nat) :
    (listed id).outcome s = (.ok ((s.lists[id]?).getD []), s) :=
  rfl

@[simp] theorem outcome_setSource (id : Nat) (x : Source) :
    (setSource id x).outcome s = (.ok (), s.put id x) :=
  rfl

@[simp] theorem outcome_ofExcept (r : Except Failure α) :
    (MonadExcept.ofExcept r : Run α).outcome s = (r, s) := by
  cases r <;> rfl

@[simp] theorem outcome_current (v : Value) :
    (current v).outcome s = (.ok (v.now s.lists), s) :=
  rfl

/-- Started in the session, the run ends in a result with `Q` or in a failure with `E`, each
together with the session after it. -/
def Ends (x : Run α) (Q : α → Session → Prop) (E : Failure → Session → Prop) : Prop :=
  match x.outcome s with
  | (.ok a, t) => Q a t
  | (.error e, t) => E e t

variable {s} {Q : α → Session → Prop} {E : Failure → Session → Prop}

theorem Ends.pure {a : α} (h : Q a s) : Ends s (Pure.pure a) Q E :=
  h

/-- What the first part ends in is what the second one starts from. -/
theorem Ends.bind {x : Run α} {f : α → Run β} {Q' : β → Session → Prop} (h : Ends s x Q E)
    (hf : ∀ a t, Q a t → Ends t (f a) Q' E) : Ends s (x >>= f) Q' E := by
  unfold Ends at h ⊢
  rw [outcome_bind]
  rcases hx : x.outcome s with ⟨e | a, t⟩
  · rw [hx] at h
    exact h
  · rw [hx] at h
    exact hf a t h

theorem Ends.imp {x : Run α} {Q' : α → Session → Prop} {E' : Failure → Session → Prop}
    (h : Ends s x Q E) (hQ : ∀ a t, Q a t → Q' a t) (hE : ∀ e t, E e t → E' e t) :
    Ends s x Q' E' := by
  unfold Ends at h ⊢
  rcases hx : x.outcome s with ⟨e | a, t⟩ <;> rw [hx] at h
  · exact hE e t h
  · exact hQ a t h

/-- A run that ends in what `r` is, whichever it is, has the result `r`. -/
theorem Ends.result {x : Run α} {r : Except Failure α}
    (h : Ends s x (fun a _ => r = .ok a) (fun e _ => r = .error e)) : (x.outcome s).1 = r := by
  unfold Ends at h
  rcases hx : x.outcome s with ⟨e | a, t⟩ <;> rw [hx] at h <;> exact h.symm

/-- Of whatever run nothing need be known. -/
theorem ends_true (x : Run α) : Ends s x (fun _ _ => True) fun _ _ => True := by
  unfold Ends
  rcases x.outcome s with ⟨e | a, t⟩ <;> exact trivial

/-- A run ends in what is known of it by two ways. -/
theorem Ends.and {x : Run α} {Q' : α → Session → Prop} {E' : Failure → Session → Prop}
    (h : Ends s x Q E) (h' : Ends s x Q' E') :
    Ends s x (fun a t => Q a t ∧ Q' a t) (fun e t => E e t ∧ E' e t) := by
  unfold Ends at h h' ⊢
  rcases hx : x.outcome s with ⟨e | a, t⟩ <;> rw [hx] at h h' <;> exact ⟨h, h'⟩

/-- It makes no difference by which of two ways a run goes on if they come to the same from what its
first part ends in. -/
theorem Ends.outcome_bind_eq {x : Run α} {f g : α → Run β}
    (h : Ends s x (fun a t => (f a).outcome t = (g a).outcome t) E) :
    (x >>= f).outcome s = (x >>= g).outcome s := by
  unfold Ends at h
  rw [outcome_bind, outcome_bind]
  rcases hx : x.outcome s with ⟨e | a, t⟩
  · rfl
  · rw [hx] at h
    exact h

end Run

end Clearance
