import Clearance.Proofs.Agreement
import Clearance.Proofs.LeafLookup
import Clearance.Proofs.Permission
import Clearance.Proofs.Replay

/-!
# Taking the identifier twice

The identifier of a value is a value again (`Value.Normal`), and its identifier is itself
(`Value.Normal.identifierIn`). So nothing is changed by putting identifiers in the place of
what they stand for: a scope with the identifiers of its grants is looked up as before
(`Context.lookup_replaced`), and the identifiers of a domain make the same modules as the domain
(`PermissionDomain.result_ofIdentifiersOf`).

Only what cannot be written has no identifier, which is due to a number with too many digits or to
a caller's own type (`Value.Legible`).
-/

namespace Clearance

/-! ## Identifiers -/

/-- A script that does not fail has a result. -/
theorem Script.exists_result {script : Script} (h : script.failure? = none) :
    ∃ t, script.result = .ok t := by
  unfold failure? at h
  cases ht : script.result with
  | ok t => exact ⟨t, rfl⟩
  | error e =>
    rw [ht] at h
    cases h

namespace Value

mutual

/-- No number in the value has too many digits, and all that is of a caller's own type can be
written. -/
def Legible : Value → Prop
  | .int i => i.natAbs < tooLong
  | .range start stop => start.natAbs < tooLong ∧ stop.natAbs < tooLong
  | .container _ items => LegibleIn items
  | .mapping _ entries => LegibleAmong entries
  | .member family _ value =>
    (∀ script ∈ family.script, script.failure? = none) ∧ Legible value
  | .object _ _ script _ _ => script.failure? = none
  | _ => True

/-- All items are legible. -/
def LegibleIn : List Value → Prop
  | [] => True
  | x :: xs => Legible x ∧ LegibleIn xs

/-- All entries are legible. -/
def LegibleAmong : List (Value × Value) → Prop
  | [] => True
  | (k, v) :: es => Legible k ∧ Legible v ∧ LegibleAmong es

end

theorem unshownInt?_of_lt {i : Int} (h : i.natAbs < tooLong) : unshownInt? i = none :=
  if_neg (Nat.not_le.2 h)

mutual

/-- What is legible can be written inside another value. -/
theorem Legible.unshown? {v : Value} (h : v.Legible) : v.unshown? = none := by
  cases v with
  | int i => exact unshownInt?_of_lt h
  | range start stop =>
    rw [Value.unshown?, unshownInt?_of_lt h.1, unshownInt?_of_lt h.2]
    rfl
  | container kind items => exact LegibleIn.unshownIn? h
  | mapping kind entries => exact LegibleAmong.unshownAmong? h
  | member family name value => exact h.2.unshown?
  | object => exact h
  | _ => rfl

theorem LegibleIn.unshownIn? {xs : List Value} (h : LegibleIn xs) : unshownIn? xs = none := by
  cases xs with
  | nil => rfl
  | cons x xs =>
    rw [Value.unshownIn?, h.1.unshown?, h.2.unshownIn?]
    rfl

theorem LegibleAmong.unshownAmong? {es : List (Value × Value)} (h : LegibleAmong es) :
    unshownAmong? es = none := by
  cases es with
  | nil => rfl
  | cons e es =>
    rw [Value.unshownAmong?, h.1.unshown?, h.2.1.unshown?, h.2.2.unshownAmong?]
    rfl

end

variable {v i : Value} {f : Nat → Value} {lists : List (List Value)} {s : Session} {q : String}

/-- What is legible can be written on its own. -/
theorem Legible.spelled (h : v.Legible) : ∃ t, v.spelled.result = .ok t := by
  unfold Value.spelled
  split
  · next family name value =>
    cases hf : family.script with
    | none => exact ⟨_, rfl⟩
    | some script => exact Script.exists_result (h.1 script hf)
  · exact Script.exists_result h
  · exact ⟨.plain v.written, by rw [h.unshown?]⟩

/-- What may be the identifier of a value: nothing, or a text. -/
inductive Normal : Value → Prop
  | null : Normal .null
  | text (s : String) : Normal (.text s)
  | peculiar (t : Peculiar) : Normal (.peculiar t)

theorem normal_toValue (t : Spelling) : t.toValue.Normal := by
  cases t with
  | plain s => exact .text s
  | peculiar t => exact .peculiar t

/-- A value is its own identifier, or is a text whose characters are, or is written. -/
theorem identified_cases (v : Value) :
    (v.Normal ∧ v.identified = .ok v) ∨
      (∃ s, v = .ownText s ∧ v.identified = .ok (.text s)) ∨
      ∃ w, v.identifying? = some w ∧ v.identified = w.spelled.result.map Spelling.toValue := by
  cases v with
  | null => exact .inl ⟨.null, rfl⟩
  | text s => exact .inl ⟨.text s, rfl⟩
  | peculiar t => exact .inl ⟨.peculiar t, rfl⟩
  | ownText s => exact .inr (.inl ⟨s, rfl, rfl⟩)
  | _ => exact .inr (.inr ⟨_, rfl, rfl⟩)

theorem normal_of_identified (h : v.identified = .ok i) : i.Normal := by
  rcases v.identified_cases with ⟨hv, hi⟩ | ⟨s, -, hi⟩ | ⟨w, -, hi⟩
  · cases hi.symm.trans h
    exact hv
  · cases hi.symm.trans h
    exact .text s
  · obtain ⟨t, -, rfl⟩ := map_eq_ok.1 (hi.symm.trans h)
    exact normal_toValue t

/-- Nothing is written that is nothing. -/
theorem identified_eq_null_iff : v.identified = .ok .null ↔ v = .null := by
  constructor
  · intro h
    rcases v.identified_cases with ⟨-, hi⟩ | ⟨s, -, hi⟩ | ⟨w, -, hi⟩
    · exact Except.ok.inj (hi.symm.trans h)
    · cases hi.symm.trans h
    · obtain ⟨t, -, ht⟩ := map_eq_ok.1 (hi.symm.trans h)
      cases t <;> cases ht
  · rintro rfl
    rfl

/-- A text is its own identifier, also the one that a member of an enumeration is. -/
theorem identified_of_text? (h : v.text? = some q) : v.identified = .ok (.text q) := by
  unfold text? at h
  split at h <;> cases h <;> rfl

/-- What is legible has an identifier. -/
theorem Legible.identified (h : v.Legible) : ∃ i, v.identified = .ok i := by
  rcases v.identified_cases with ⟨-, hi⟩ | ⟨s, -, hi⟩ | ⟨w, hw, hi⟩
  · exact ⟨v, hi⟩
  · exact ⟨_, hi⟩
  · have hlegible : w.Legible := by
      cases v with
      | null | text | ownText | peculiar => cases hw
      | member family name value =>
        cases hw
        exact h.2
      | _ =>
        cases hw
        exact h
    obtain ⟨t, ht⟩ := hlegible.spelled
    exact ⟨t.toValue, by rw [hi, ht]; rfl⟩

/-! ## Identifiers in a session -/

/-- What is put in the place of shared lists is a list, too. -/
def Lists (f : Nat → Value) : Prop :=
  ∀ id, (∃ later, f id = .shared later) ∨ ∃ items, f id = .container .list items

theorem lists_listNow (lists : List (List Value)) (depth : Nat) (around : List Nat) :
    Lists (listNow lists depth around) := by
  intro id
  cases depth with
  | zero => exact .inl ⟨id, rfl⟩
  | succ depth =>
    rw [listNow]
    split
    · exact .inr ⟨_, rfl⟩
    · exact .inl ⟨id, rfl⟩

/-- A list is not nothing, and nothing else becomes nothing. -/
theorem Lists.fill_eq_null_iff (hf : Lists f) : v.fill f = .null ↔ v = .null := by
  cases v with
  | shared id =>
    rw [fill]
    obtain ⟨_, h⟩ | ⟨_, h⟩ := hf id <;> simp [h]
  | _ => simp [fill]

/-- A list is no text, nor is it the text that a member is. -/
theorem Lists.text?_fill (hf : Lists f) : (v.fill f).text? = v.text? := by
  cases v with
  | shared id =>
    rw [fill]
    obtain ⟨_, h⟩ | ⟨_, h⟩ := hf id <;> rw [h] <;> rfl
  | member family name value =>
    -- only a member that is a text besides has the text of its value
    obtain ⟨_, _, _ | _ | _, _, _, _⟩ := family
    · rfl
    · cases value with
      | shared id =>
        rw [fill, fill]
        obtain ⟨_, h⟩ | ⟨_, h⟩ := hf id <;> rw [h] <;> rfl
      | _ => rfl
    · rfl
  | _ => rfl

/-- The value with the lists as they are is the value itself, or has lists filled in. -/
theorem now_cases (v : Value) (lists : List (List Value)) :
    v.now lists = v ∨ ∃ f, Lists f ∧ v.now lists = v.fill f := by
  cases lists with
  | nil => exact .inl rfl
  | cons items lists => exact .inr ⟨_, lists_listNow _ _ _, rfl⟩

theorem now_eq_null_iff : v.now lists = .null ↔ v = .null := by
  obtain h | ⟨f, hf, h⟩ := v.now_cases lists
  · rw [h]
  · rw [h, hf.fill_eq_null_iff]

theorem text?_now : (v.now lists).text? = v.text? := by
  obtain h | ⟨f, hf, h⟩ := v.now_cases lists
  · rw [h]
  · rw [h, hf.text?_fill]

/-- Nothing is the only value that is identified by nothing. -/
theorem identifierIn_eq_null_iff (s : Session) : v.identifierIn s = .ok .null ↔ v = .null :=
  identified_eq_null_iff.trans now_eq_null_iff

theorem identifierIn_of_text? (s : Session) (h : v.text? = some q) :
    v.identifierIn s = .ok (.text q) :=
  identified_of_text? (text?_now.trans h)

namespace Normal

theorem of_identifierIn (h : v.identifierIn s = .ok i) : i.Normal :=
  normal_of_identified h

theorem isSome_content? (h : i.Normal) (hi : i ≠ .null) : i.content?.isSome := by
  cases h with
  | null => exact absurd rfl hi
  | text | peculiar => rfl

theorem now (h : i.Normal) (lists : List (List Value)) : i.now lists = i := by
  cases h <;> cases lists <;> rfl

/-- The identifier of an identifier is itself. -/
theorem identifierIn (h : i.Normal) (s : Session) : i.identifierIn s = .ok i := by
  rw [Value.identifierIn, h.now]
  cases h <;> rfl

theorem agrees_self (h : i.Normal) : i.agrees i = true := by
  cases h <;>
    simp [Value.agrees, Value.agreesPlain, Value.quantity?, Value.text?, Value.octets?]

end Normal

variable {ps : List Value}

theorem agreesList_self (h : ∀ p ∈ ps, p.Normal) : agreesList ps ps = true := by
  induction ps with
  | nil => rfl
  | cons p ps ih =>
    obtain ⟨hp, hps⟩ := List.forall_mem_cons.1 h
    rw [agreesList, hp.agrees_self, ih hps, Bool.true_and]

/-- Each of the identifiers is the same as one of them. -/
theorem within_of_subset {qs : List Value} (h : ∀ p ∈ ps, p.Normal) (hsub : ps ⊆ qs) :
    within ps qs = true := by
  induction ps with
  | nil => rfl
  | cons p ps ih =>
    obtain ⟨hp, hps⟩ := List.forall_mem_cons.1 h
    obtain ⟨hq, hqs⟩ := List.cons_subset.1 hsub
    rw [within, ih hps hqs, Bool.and_true, List.any_eq_true]
    exact ⟨p, hq, hp.agrees_self⟩

/-- The items of a value are identified by identifiers. -/
theorem normal_of_identifiedIn (h : v.identifiedIn s = .ok ps) :
    ∀ p ∈ ps, p.Normal := by
  obtain ⟨items, -, hitems⟩ := Handling.exists_items_of_gatherIn h
  intro p hp
  obtain ⟨x, -, hx⟩ := (mem_of_mapM_eq_ok hitems).1 hp
  exact normal_of_identified hx

/-- The items of a container of identifiers have these for their identifiers. -/
theorem identifiedIn_container (kind : ContainerKind) (h : ∀ p ∈ ps, p.Normal)
    (s : Session) : (Value.container kind ps).identifiedIn s = .ok ps :=
  Handling.gather_of_kept fun p hp => (h p hp).identifierIn s

end Value

/-! ## Grants -/

namespace Context

variable {c c' v : Value} {x y : String} {s : Session} {l : Lookup}

/-- The mapping with `v` in the place of what it has under the scope. -/
def replaced (c : Value) (x : String) (v : Value) : Value :=
  match c with
  | .mapping kind entries =>
    .mapping kind (entries.map fun e => if e.1.foundAs? = some x then (e.1, v) else e)
  | c => c

/-- Under the scope is the replacement, if anything has been there, and all else is as it was. -/
theorem under?_replaced (c : Value) (x : String) (v : Value) (y : String) :
    under? (replaced c x v) y = (under? c y).map fun w => if y = x then v else w := by
  cases c with
  | mapping kind entries =>
    have hkey : ((fun e : Value × Value => e.1.foundAs? == some y) ∘
        fun e => if e.1.foundAs? = some x then (e.1, v) else e) =
          fun e => e.1.foundAs? == some y := by
      funext e
      by_cases h : e.1.foundAs? = some x <;> simp [h]
    show bound? y _ = (bound? y entries).map _
    rw [bound?, bound?, List.find?_map, hkey]
    cases he : entries.find? fun e => e.1.foundAs? == some y with
    | none => rfl
    | some e =>
      have hy : e.1.foundAs? = some y := by simpa using List.find?_some he
      by_cases hyx : y = x <;> simp [hy, hyx]
  | _ => rfl

/-- A look depends on what is under the scope. -/
theorem stateIn_congr (h : under? c' x = under? c x) : stateIn c' s x = stateIn c s x := by
  unfold stateIn
  rw [h]

/-- Identifiers under a scope are granted as they are. -/
theorem stateIn_of_identifiers {kind : ContainerKind} {ps : List Value}
    (h : under? c x = some (.container kind ps)) (hps : ∀ p ∈ ps, p.Normal) (s : Session) :
    stateIn c s x = .ok ⟨.granted, ps⟩ := by
  rw [stateIn_of_readable h rfl, Value.identifiedIn_container kind hps]
  rfl

theorem isSome_mapping?_replaced (c : Value) (x : String) (v : Value) :
    (replaced c x v).mapping?.isSome = c.mapping?.isSome := by
  cases c <;> rfl

/-- Other scopes are looked up as before, whatever is put under one. -/
theorem lookup_replaced_of_ne (h : y ≠ x) (v : Value) (s : Session) :
    ((lookup (replaced c x v) y).outcome s).1 = ((lookup c y).outcome s).1 := by
  have hunder : under? (replaced c x v) y = under? c y := by simp [under?_replaced, h]
  cases hc : c.mapping?.isSome with
  | true =>
    have hc' := (isSome_mapping?_replaced c x v).trans hc
    rw [outcome_lookup hc', outcome_lookup hc, stateIn_congr hunder]
  | false =>
    have hsame : replaced c x v = c := by
      cases c with
      | mapping => cases hc
      | _ => rfl
    rw [hsame]

/-- A scope that is granted is looked up to the same with the grants that were found in its place,
in whatever session. -/
theorem lookup_replaced (h : ((lookup c x).outcome s).1 = .ok l) (hl : l.state = .granted)
    (kind : ContainerKind) (t : Session) :
    ((lookup (replaced c x (.container kind l.grants)) x).outcome t).1 = .ok l ∧
      l.agrees l = true := by
  rcases stateIn_cases (stateIn_of_lookup h) with ⟨-, rfl⟩ | ⟨-, rfl⟩ | ⟨v, ps, hv, -, hi, rfl⟩
  · cases hl
  · cases hl
  · have hps := Value.normal_of_identifiedIn hi
    have hunder : under? (replaced c x (.container kind ps)) x = some (.container kind ps) := by
      simp [under?_replaced, hv]
    refine ⟨?_, ?_⟩
    · rw [outcome_lookup (isSome_mapping?_of_under? hunder), stateIn_of_identifiers hunder hps]
    · simp [Lookup.agrees, Value.agreesList_self hps]

end Context

/-! ## Domains -/

/-- What is fit for a set of what the items of a value are identified by is the same by way of the
identifiers. -/
theorem Value.gatherIn_identifyingFixed {v : Value} {s t : Session} {ps : List Value}
    (h : v.identifiedIn s = .ok ps) (kind : ContainerKind) :
    (Handling.identifyingFixed s.lists).gatherIn v s =
      (Handling.identifyingFixed t.lists).gatherIn (.container kind ps) t := by
  obtain ⟨items, hitems, hmap⟩ := Handling.exists_items_of_gatherIn h
  have hcontainer : ((Run.iterate (.container kind ps)).outcome t).1 = .ok ps := rfl
  rw [Handling.gatherIn_of_iterate hitems, Handling.gatherIn_of_iterate hcontainer]
  refine mapM_eq_mapM_of_ok hmap fun x i hx => ?_
  have hi : (i.now t.lists).identified = .ok i :=
    (normal_of_identified hx).identifierIn t
  have hx : (x.now s.lists).identified = .ok i := hx
  simp only [Handling.identifyingFixed, hx, hi]

namespace PermissionDomain

variable {v : Value} {s : Session} {ps : List Value} {d : PermissionDomain}

/-- The domain of the list of identifiers of what the value holds. -/
def ofIdentifiersOf (v : Value) : Run PermissionDomain := do
  ofValue (.container .list (← Run.identifyAll v))

/-- The identifiers make the domain that the value makes, or fail as it does, and are gone through
once more. -/
theorem result_ofIdentifiersOf (h : v.identifiedIn s = .ok ps) :
    ((ofIdentifiersOf v).outcome s).1 = ((ofValue v).outcome s).1 := by
  rw [ofIdentifiersOf, Run.outcome_bind, Run.outcome_identifyAll, h]
  simp only [outcome_ofValue]
  rw [Value.gatherIn_identifyingFixed h]

/-- A domain is made of identifiers. -/
theorem exists_eq_ofValues (h : ((ofValue v).outcome s).1 = .ok d) :
    ∃ ps, (∀ p ∈ ps, p.Normal) ∧ d = ofValues ps := by
  rw [outcome_ofValue] at h
  obtain ⟨ps, hps, rfl⟩ := map_eq_ok.1 h
  obtain ⟨items, -, hmap⟩ := Handling.exists_items_of_gatherIn hps
  refine ⟨ps, fun p hp => ?_, rfl⟩
  obtain ⟨x, -, hx⟩ := (mem_of_mapM_eq_ok hmap).1 hp
  exact Value.normal_of_identified (Handling.result_identifyingFixed_eq_ok.1 hx).1

/-- A module that is made of a domain agrees with itself. -/
theorem named_agrees (h : ((ofValue v).outcome s).1 = .ok d) (name : String) :
    (d.named name).agrees (d.named name) := by
  obtain ⟨ps, hps, rfl⟩ := exists_eq_ofValues h
  refine Module.agrees_iff.2 ⟨rfl, fun _ => Iff.rfl, rfl, ?_⟩
  refine Value.within_of_subset (fun p hp => hps p ?_) (List.Subset.refl _)
  exact List.mem_of_mem_filter (Value.firsts_subset _ hp)

/-- If the identifiers can be keys the domain is made. -/
theorem exists_ofValue_of_fixed (h : v.identifiedIn s = .ok ps)
    (hps : ∀ p ∈ ps, p.changeable? = none) : ∃ d, ((ofValue v).outcome s).1 = .ok d := by
  have hfixed : (Handling.identifyingFixed s.lists).gatherIn v s = .ok ps := by
    rw [Value.gatherIn_identifyingFixed h .list]
    refine Handling.gather_of_kept fun p hp => ?_
    have hp' := (Value.normal_of_identifiedIn h p hp).identifierIn s
    exact Handling.result_identifyingFixed_eq_ok.2 ⟨hp', hps p hp⟩
  exact ⟨ofValues ps, by rw [outcome_ofValue, hfixed]; rfl⟩

/-! ## Domains made one after the other -/

theorem session_ofValue (h : v.RepeatableIn s) :
    ∃ es, ((ofValue v).outcome s).2 = s.emit es := by
  rw [outcome_ofValue, h.sessionAfter ⟨rfl, rfl⟩]
  exact ⟨_, rfl⟩

theorem session_ofIdentifiersOf (h : v.RepeatableIn s) :
    ∃ es, ((ofIdentifiersOf v).outcome s).2 = s.emit es := by
  have hdrained : s.drained v = s := h.sessionAfter ⟨rfl, rfl⟩ _
  rw [ofIdentifiersOf, Run.outcome_bind, Run.outcome_identifyAll, hdrained]
  cases v.identifiedIn s with
  | error e => exact ⟨_, rfl⟩
  | ok ps =>
    dsimp only
    rw [outcome_ofValue, Handling.sessionAfter_of_none rfl]
    exact ⟨_, Session.emit_emit _ _ _⟩

theorem result_ofValue_emit (v : Value) (s : Session) (es : List Event) :
    ((ofValue v).outcome (s.emit es)).1 = ((ofValue v).outcome s).1 := by
  rw [outcome_ofValue, outcome_ofValue]
  rfl

end PermissionDomain

end Clearance
