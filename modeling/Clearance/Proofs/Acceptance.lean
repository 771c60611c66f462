import Clearance.Declaration.Meaning
import Clearance.Proofs.Reading

/-!
# What a reading accepts

A reading accepts no declaration with a name or a permission that paths could not name, in
whatever form the payload is given: what it accepts is sound (`ModuleDeclaration.Sound`). Neither
does it write anything into the log, whether it accepts the payload or not (`Session.Silent`).

Both are said at once by `Run.Quiet`, which holds of a run if it holds of its parts
(`Run.Quiet.bind`). Of its payload a reading asks for items and for fields only, so that nothing
need be known of the payload but that it is quiet in answering (`Payload.Quiet`), as values
(`Payload.quiet_value`) and documents (`Payload.quiet_document`) are.

The exception is a declaration that has been read before, which is accepted as it is. A value is
unspoilt (`Value.Unspoilt`) if those that a reading comes across in it are still sound. That depends
on what a source still has, so that `Run.QuietFrom` speaks of a run from one session only.
-/

namespace Clearance

/-- Nothing has been written into the log from the first session to the second. -/
def Session.Silent (s t : Session) : Prop :=
  ∃ es : List Event, t.trace = s.trace ++ es.toArray ∧ ∀ r, .logged r ∉ es

namespace Session.Silent

variable {s t u : Session}

theorem of_trace_eq (h : t.trace = s.trace) : s.Silent t :=
  ⟨[], by simp [h], fun _ => List.not_mem_nil⟩

theorem emit (s : Session) {es : List Event} (h : ∀ r, .logged r ∉ es) : s.Silent (s.emit es) :=
  ⟨es, rfl, h⟩

theorem trans (h : s.Silent t) (h' : t.Silent u) : s.Silent u := by
  obtain ⟨es, ht, hes⟩ := h
  obtain ⟨fs, hu, hfs⟩ := h'
  refine ⟨es ++ fs, by simp [hu, ht], fun r hr => ?_⟩
  exact (List.mem_append.1 hr).elim (hes r) (hfs r)

end Session.Silent

/-- What came of each item is in `P`. -/
def Visit.Each {β : Type} (P : β → Prop) : Visit β → Prop
  | .complete ys => ∀ y ∈ ys, P y
  | .interrupted .. => True

/-! ## Quiet runs -/

namespace Run

variable {α β : Type} {P : α → Prop} {Q : β → Prop}

/-- Started in the session, the run writes nothing into the log, and its results are in `P`. -/
def QuietFrom (x : Run α) (s : Session) (P : α → Prop) : Prop :=
  x.Ends s (fun a t => P a ∧ s.Silent t) fun _ t => s.Silent t

/-- Wherever it starts, the run writes nothing into the log, and its results are in `P`. -/
def Quiet (x : Run α) (P : α → Prop) : Prop :=
  ∀ s, x.QuietFrom s P

theorem Quiet.pure {a : α} (h : P a) : (Pure.pure a : Run α).Quiet P :=
  fun _ => ⟨h, .of_trace_eq rfl⟩

theorem quiet_throw (e : Failure) : (throw e : Run α).Quiet P :=
  fun _ => .of_trace_eq rfl

variable {s t : Session}

/-- The first part is known to come to `a`. -/
theorem QuietFrom.of_outcome {x : Run α} {f : α → Run β} {a : α} (h : x.outcome s = (.ok a, t))
    (hst : s.Silent t) (hf : (f a).QuietFrom t Q) : (x >>= f).QuietFrom s Q := by
  have hbind : (x >>= f).outcome s = (f a).outcome t := by rw [outcome_bind, h]
  have hend : (f a).Ends t (fun b u => Q b ∧ s.Silent u) fun _ u => s.Silent u :=
    Ends.imp hf (fun _ _ hb => ⟨hb.1, hst.trans hb.2⟩) fun _ _ => hst.trans
  unfold QuietFrom Ends
  rw [hbind]
  exact hend

theorem QuietFrom.bind {x : Run α} {f : α → Run β} (h : x.QuietFrom s P)
    (hf : ∀ a, P a → (f a).Quiet Q) : (x >>= f).QuietFrom s Q := by
  refine Ends.bind h fun a t hat => ?_
  exact (hf a hat.1 t).imp (fun _ _ hb => ⟨hb.1, hat.2.trans hb.2⟩) fun _ _ => hat.2.trans

theorem Quiet.bind {x : Run α} {f : α → Run β} (h : x.Quiet P) (hf : ∀ a, P a → (f a).Quiet Q) :
    (x >>= f).Quiet Q :=
  fun s => (h s).bind hf

/-- What a quiet run has for a result is in `P`. -/
theorem QuietFrom.result {x : Run α} {a : α} (h : x.QuietFrom s P)
    (ha : x.outcome s = (.ok a, t)) : P a ∧ s.Silent t := by
  unfold QuietFrom Ends at h
  rw [ha] at h
  exact h

theorem quiet_record {e : Event} (h : ∀ r, e ≠ .logged r) : (record e).Quiet fun _ => True := by
  intro s
  unfold QuietFrom Ends
  rw [outcome_record]
  exact ⟨trivial, .emit s fun r hr => h r (List.mem_singleton.1 hr).symm⟩

theorem quiet_look (v : Value) (l : Look) : (record (.look v l)).Quiet fun _ => True :=
  quiet_record nofun

theorem quiet_current (v : Value) : (current v).Quiet fun _ => True :=
  fun _ => ⟨trivial, .of_trace_eq rfl⟩

/-- To write a value may call something and may fail, but writes nothing into the log. -/
theorem quiet_spell (v : Value) : (spell v).Quiet fun _ => True := by
  intro s
  have hcalls : ∀ r, Event.logged r ∉ v.spelled.calls.map .called := by simp
  refine .of_outcome (outcome_callAll _) (.emit s hcalls) ?_
  unfold QuietFrom Ends
  rw [outcome_ofExcept]
  cases v.spelled.result with
  | error e => exact .of_trace_eq rfl
  | ok t => exact ⟨trivial, .of_trace_eq rfl⟩

theorem quiet_setSource (id : Nat) (x : Source) : (setSource id x).Quiet fun _ => True :=
  fun _ => ⟨trivial, .of_trace_eq rfl⟩

theorem quiet_inTurn {f : Nat → α → Run β} {xs : List α} (hf : ∀ i, ∀ x ∈ xs, (f i x).Quiet Q)
    (i : Nat) : (inTurn f i xs).Quiet fun ys => ∀ y ∈ ys, Q y := by
  induction xs generalizing i with
  | nil => exact .pure fun _ h => absurd h List.not_mem_nil
  | cons x xs ih =>
    have hxs := ih fun i y hy => hf i y (List.mem_cons_of_mem x hy)
    exact (hf i x List.mem_cons_self).bind fun y hy => (hxs (i + 1)).bind fun ys hys =>
      .pure (List.forall_mem_cons.2 ⟨hy, hys⟩)

theorem quiet_drawEach {f : Nat → Value → Run β} {xs : List Value}
    (hf : ∀ i, ∀ x ∈ xs, (f i x).Quiet Q) (id : Nat) (failure : Option Failure) (i : Nat) :
    (drawEach f id failure i xs).Quiet (Visit.Each Q) := by
  induction xs generalizing i with
  | nil =>
    refine (quiet_setSource id .spent).bind fun _ _ => ?_
    cases failure with
    | none => exact .pure fun _ h => absurd h List.not_mem_nil
    | some e => exact .pure trivial
  | cons x xs ih =>
    have hproduced : (record .produced).Quiet fun _ => True := quiet_record nofun
    have hxs := ih fun i y hy => hf i y (List.mem_cons_of_mem x hy)
    refine (quiet_setSource id _).bind fun _ _ => hproduced.bind fun _ _ => ?_
    refine (hf i x List.mem_cons_self).bind fun y hy => (hxs (i + 1)).bind fun v hv => .pure ?_
    cases v with
    | complete ys => exact List.forall_mem_cons.2 ⟨hy, hv⟩
    | interrupted j e => exact trivial

/-- Going through the items of a value is quiet if what is done to each of them is. -/
theorem quietFrom_visit {f : Nat → Value → Run β} {v : Value}
    (hf : ∀ x, v.stockIn s = .ok x → ∀ i, ∀ y ∈ x.items, (f i y).Quiet Q) :
    (visit v f).QuietFrom s (Visit.Each Q) := by
  unfold visit
  unfold Value.stockIn at hf
  cases hit : Iteration.of? v with
  | none => exact quiet_throw _ s
  | some it =>
    rw [hit] at hf
    have hlook : (record (.look v .traversed)).outcome s = (.ok (), s.emit [.look v .traversed]) :=
      outcome_record s _
    have hsilent : s.Silent (s.emit [.look v .traversed]) := .emit s (by simp)
    cases it with
    | items xs =>
      refine .of_outcome hlook hsilent ?_
      exact ((quiet_inTurn (hf _ rfl) 0).bind fun _ hys => .pure hys) _
    | shared id =>
      refine .of_outcome hlook hsilent (.of_outcome (outcome_listed _ id) (.of_trace_eq rfl) ?_)
      exact ((quiet_inTurn (hf _ rfl) 0).bind fun _ hys => .pure hys) _
    | source id =>
      refine .of_outcome hlook hsilent (.of_outcome (outcome_source _ id) (.of_trace_eq rfl) ?_)
      exact quiet_drawEach (hf _ rfl) id _ 0 _

end Run

/-! ## Quiet payloads -/

/-- The payload is quiet in answering for its parts, as long as what is done to them is. -/
structure Payload.Quiet {α : Type} (p : Payload α) : Prop where
  text (x : α) : (p.text x).Quiet fun _ => True
  visit {β : Type} {f : Nat → α → Run β} {Q : β → Prop} (hf : ∀ i x, (f i x).Quiet Q) (x : α) :
    (p.visit? x f).Quiet fun v => ∀ w, v = some w → w.Each Q
  field (x : α) (name : String) : (p.field? x name).Quiet fun _ => True

/-- Going through what is taken for a list is quiet if what is done to each of its items is. -/
theorem Value.quietFrom_declaredVisit? {β : Type} {f : Nat → Value → Run β} {Q : β → Prop}
    {v : Value} {s : Session}
    (hf : ∀ x, v.stockIn s = .ok x → ∀ i, ∀ y ∈ x.items, (f i y).Quiet Q) :
    (v.declaredVisit? f).QuietFrom s fun r => ∀ w, r = some w → w.Each Q := by
  have hsome : (do return some (← Run.visit v f) : Run (Option (Visit β))).QuietFrom s
      fun r => ∀ w, r = some w → w.Each Q :=
    (Run.quietFrom_visit hf).bind fun r hr => .pure fun w hw => Option.some.inj hw ▸ hr
  unfold Value.declaredVisit?
  split
  all_goals first
    | exact hsome
    | exact Run.Quiet.pure nofun s

/-- To ask for the text of a value is quiet, whatever is called for it. -/
theorem Value.quiet_declaredText (v : Value) : v.declaredText.Quiet fun _ => True := by
  unfold declaredText
  split
  case h_4 w _ =>
    refine (Run.quiet_current w).bind fun u _ => ?_
    exact (Run.quiet_spell u).bind fun _ _ => .pure trivial
  all_goals exact .pure trivial

theorem Payload.quiet_value : Payload.value.Quiet where
  text := Value.quiet_declaredText
  visit hf _ _ := Value.quietFrom_declaredVisit? fun _ _ i y _ => hf i y
  field x name := by
    show (x.declaredField? name).Quiet _
    unfold Value.declaredField?
    cases x.mapping? with
    | none => exact .pure trivial
    | some m => exact (Run.quiet_look x _).bind fun _ _ => .pure trivial

theorem Payload.quiet_document : Payload.document.Quiet where
  text d := by
    cases d with
    | _ => exact .pure trivial
  visit {β f Q} hf d := by
    cases d with
    | list items =>
      exact (Run.quiet_inTurn (fun i x _ => hf i x) 0).bind fun ys hys =>
        .pure fun w hw => Option.some.inj hw ▸ hys
    | _ => exact .pure nofun
  field d name := by
    cases d with
    | _ => exact .pure trivial

/-! ## Sound declarations -/

/-- The text may be declared as an identifier: a path can name it. -/
def Path.IsPart (s : String) : Prop :=
  s ≠ "" ∧ Path.separator ∉ s.toList

/-- Paths can name the scope and all of the permissions. -/
structure ModuleDeclaration.Sound (d : ModuleDeclaration) : Prop where
  name : Path.IsPart d.name
  permissions : ∀ q ∈ d.permissions, Path.IsPart q

/-- What has been read, if there are no issues, is in `P`. -/
def Checked.Accepts {α : Type} (P : α → Prop) (x : Checked α) : Prop :=
  ∀ a, x = .ok a → P a

theorem Role.isPart_of_check {role : Role} {s q : String} (h : role.check s = .ok q) :
    Path.IsPart q := by
  unfold check at h
  split at h
  · cases h
  · next hs =>
    split at h
    · cases h
    · next hp => exact Except.ok.inj h ▸ ⟨hs, hp⟩

/-- The texts that a role accepts one by one are all identifiers. -/
theorem Role.isPart_of_mapM_check {role : Role} {ss qs : List String}
    (h : ss.mapM role.check = .ok qs) : ∀ q ∈ qs, Path.IsPart q := by
  intro q hq
  obtain ⟨s, -, hs⟩ := (mem_of_mapM_eq_ok h).1 hq
  exact role.isPart_of_check hs

namespace Checked

variable {α β : Type} {P : α → Prop} {Q : β → Prop}

theorem accepts_error (es : List Issue) : Accepts P (.error es) :=
  nofun

theorem accepts_atPlace {place : List Step} {r : Except Fault α} (h : ∀ a, r = .ok a → P a) :
    Accepts P (atPlace place r) := by
  intro a ha
  cases r with
  | error f => cases ha
  | ok b => exact h a (congrArg Except.ok (Except.ok.inj ha))

theorem accepts_bind {x : Checked α} {f : α → Checked β} (h : ∀ a, Accepts Q (f a)) :
    Accepts Q (x >>= f) := by
  intro b hb
  cases x with
  | error es => cases hb
  | ok a => exact h a b hb

theorem Accepts.pair {x : Checked α} {y : Checked β} (hx : Accepts P x) (hy : Accepts Q y) :
    Accepts (fun ab => P ab.1 ∧ Q ab.2) (pair x y) := by
  rintro ⟨a, b⟩ h
  cases x <;> cases y <;> cases h
  exact ⟨hx a rfl, hy b rfl⟩

theorem Accepts.map {x : Checked α} {f : α → β} (hx : Accepts P x) (hf : ∀ a, P a → Q (f a)) :
    Accepts Q (x.map f) := by
  intro b h
  cases x with
  | error es => cases h
  | ok a =>
    cases h
    exact hf a (hx a rfl)

theorem accepts_all {xs : List (Checked α)} (h : ∀ x ∈ xs, Accepts P x) :
    Accepts (fun as => ∀ a ∈ as, P a) (all xs) := by
  induction xs with
  | nil =>
    rintro as ⟨⟩
    exact fun _ h => absurd h List.not_mem_nil
  | cons x xs ih =>
    obtain ⟨hx, hxs⟩ := List.forall_mem_cons.1 h
    exact (hx.pair (ih hxs)).map fun _ h => List.forall_mem_cons.2 h

end Checked

/-! ## Readings -/

/-- A list is read quietly if its items are gone through so. -/
theorem Payload.quietFrom_readList {α β : Type} {p : Payload α} {P : β → Prop}
    {read : List Step → α → Run (Checked β)} {place : List Step} {x : α} {s : Session}
    (h : (p.visit? x fun i y => read (place ++ [.index i]) y).QuietFrom s
      fun r => ∀ w, r = some w → w.Each (Checked.Accepts P)) :
    (p.readList read place x).QuietFrom s (Checked.Accepts fun bs => ∀ b ∈ bs, P b) := by
  refine h.bind fun r hr => ?_
  cases r with
  | none => exact .pure (Checked.accepts_error _)
  | some w =>
    cases w with
    | complete ys => exact .pure (Checked.accepts_all (hr _ rfl))
    | interrupted i e => exact .pure (Checked.accepts_error _)

namespace Payload.Quiet

open Checked

variable {α β : Type} {p : Payload α} (hp : p.Quiet) {P : β → Prop}
  {read : List Step → α → Run (Checked β)}

include hp

theorem quiet_readText (place : List Step) (x : α) :
    (p.readText place x).Quiet (Accepts fun _ => True) :=
  (hp.text x).bind fun _ _ => .pure fun _ _ => trivial

theorem quiet_readName (place : List Step) (x : α) :
    (p.readName place x).Quiet (Accepts Path.IsPart) :=
  (hp.quiet_readText place x).bind fun _ _ =>
    .pure (accepts_bind fun _ => accepts_atPlace fun _ => Role.scope.isPart_of_check)

theorem quiet_readList (hread : ∀ place x, (read place x).Quiet (Accepts P)) (place : List Step)
    (x : α) : (p.readList read place x).Quiet (Accepts fun bs => ∀ b ∈ bs, P b) :=
  fun s => quietFrom_readList (hp.visit (fun i y => hread (place ++ [.index i]) y) x s)

theorem quiet_readField (hread : ∀ place x, (read place x).Quiet (Accepts P))
    (place : List Step) (x : α) (name : String) :
    (p.readField read place x name).Quiet (Accepts P) := by
  refine (hp.field x name).bind fun y _ => ?_
  cases y with
  | none => exact .pure (accepts_error _)
  | some z => exact hread _ z

theorem quiet_readPermissions (place : List Step) (x : α) :
    (p.readPermissions place x).Quiet (Accepts fun qs => ∀ q ∈ qs, Path.IsPart q) := by
  have htexts : (p.readTexts place x).Quiet (Accepts fun qs => ∀ q ∈ qs, True) :=
    hp.quiet_readList hp.quiet_readText place x
  refine htexts.bind fun texts _ => ?_
  match texts with
  | .error es => exact .pure (accepts_error _)
  | .ok [] => exact .pure (accepts_error _)
  | .ok (q :: qs) =>
    refine .pure (Accepts.map (accepts_atPlace fun _ => Role.isPart_of_mapM_check) ?_)
    exact fun ps hps q hq => hps q (mem_distinct.1 hq)

theorem quiet_readFields (place : List Step) (x : α) :
    (p.readFields place x).Quiet (Accepts ModuleDeclaration.Sound) := by
  unfold readFields
  split
  · refine (hp.quiet_readField hp.quiet_readName place x "name").bind fun name hname => ?_
    refine (hp.quiet_readField hp.quiet_readPermissions place x "permissions").bind
      fun permissions hpermissions => .pure ?_
    exact (hname.pair hpermissions).map fun _ h => ⟨h.1, h.2⟩
  · exact .pure (accepts_error _)

/-- A module that has not been read before is read into a sound declaration. -/
theorem quiet_readModule (place : List Step) {x : α} (hx : ∀ d ∈ p.module? x, d.Sound) :
    (p.readModule place x).Quiet (Accepts ModuleDeclaration.Sound) := by
  unfold readModule
  cases hd : p.module? x with
  | none => exact hp.quiet_readFields place x
  | some d => exact .pure fun a ha => Except.ok.inj ha ▸ hx d hd

end Payload.Quiet

/-- The declarations that a reading comes across in the value have not been changed into unsound
ones since they were read: its own modules if it is the declaration of a registry, and what it has
among its modules if it is a mapping. -/
structure Value.Unspoilt (v : Value) (s : Session) : Prop where
  registry : ∀ ds, v = .declarations ds → ∀ d ∈ ds, d.Sound
  modules : ∀ w x d, Context.under? v "modules" = some w → w.stockIn s = .ok x →
    .declaration d ∈ x.items → d.Sound

namespace Payload

open Checked

/-- What is no declaration yet holds none as such. -/
theorem module?_value {v : Value} {d : ModuleDeclaration} (h : value.module? v = some d) :
    v = .declaration d := by
  cases v <;> cases h
  rfl

theorem registry?_value {v : Value} {ds : List ModuleDeclaration}
    (h : value.registry? v = some ds) : v = .declarations ds := by
  cases v <;> cases h
  rfl

/-- The modules of an unspoilt value are sound. -/
theorem quietFrom_readRegistry_value {v : Value} {s : Session} (hv : v.Unspoilt s) :
    (value.readRegistry v).QuietFrom s (Accepts fun ds => ∀ d ∈ ds, d.Sound) := by
  unfold readRegistry
  cases hds : value.registry? v with
  | some ds =>
    exact Run.Quiet.pure (fun a ha => Except.ok.inj ha ▸ hv.registry ds (registry?_value hds)) s
  | none =>
    show (value.readModules v).QuietFrom s _
    unfold readModules
    split
    · next hm =>
      obtain ⟨m, hm⟩ := Option.isSome_iff_exists.1 hm
      have hfield : (value.field? v "modules").outcome s =
          (.ok (Context.under? v "modules"), s.emit [.look v (.fetched "modules")]) := by
        show (v.declaredField? "modules").outcome s = _
        simp [Value.declaredField?, Context.under?, hm, Except.map]
      refine .of_outcome hfield (.emit s (by simp)) ?_
      cases hw : Context.under? v "modules" with
      | none => exact Run.Quiet.pure (fun ds h => by cases h; exact fun _ h => by cases h) _
      | some w =>
        refine quietFrom_readList (Value.quietFrom_declaredVisit? fun x hx i y hy => ?_)
        exact quiet_value.quiet_readModule _ fun d hd =>
          hv.modules w x d hw hx (module?_value hd ▸ hy)
    · exact Run.Quiet.pure (accepts_error _) s

/-- Nothing in a document is a declaration that has been read before. -/
theorem quiet_readRegistry_document (d : Document) :
    (document.readRegistry d).Quiet (Accepts fun ds => ∀ d ∈ ds, d.Sound) := by
  show (document.readModules d).Quiet _
  unfold readModules
  split
  · refine (quiet_document.field d "modules").bind fun y _ => ?_
    cases y with
    | none => exact .pure fun ds h => by cases h; exact fun _ h => absurd h List.not_mem_nil
    | some z =>
      exact quiet_document.quiet_readList
        (fun place _ => quiet_document.quiet_readModule place fun _ h => by cases h) _ z
  · exact .pure (accepts_error _)

end Payload

/-- Accepted is what has been read without issues. -/
theorem Payload.quietFrom_accept {α β : Type} {P : β → Prop} {read : Run (Checked β)}
    {s : Session} (p : Payload α) (subject : Subject) (h : read.QuietFrom s (Checked.Accepts P)) :
    (p.accept subject read).QuietFrom s P := by
  refine h.bind fun r hr => ?_
  cases r with
  | error es => exact Run.quiet_throw _
  | ok b => exact .pure (hr b rfl)

/-- Of a document is accepted what its reading accepts. -/
theorem Document.quiet_accept {β : Type} {P : β → Prop} {read : Document → Run (Checked β)}
    (subject : Subject) (h : ∀ d, (read d).Quiet (Checked.Accepts P)) (text : String) :
    (accept subject read text).Quiet P := by
  refine fun s => Payload.document.quietFrom_accept subject ?_
  cases ofText? text with
  | none => exact Run.Quiet.pure (Checked.accepts_error _) s
  | some d => exact h d s

end Clearance
