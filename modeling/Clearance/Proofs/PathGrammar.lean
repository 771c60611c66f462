import Clearance.Path.Resolver
import Clearance.Proofs.Outcome

/-!
# The grammar of paths

A text is a path if there is a separator in it, something before the first one (`Path.before`) and
something after it (`Path.after`); otherwise it is `Path.Malformed`. A text that is a path is split
at the first separator (`Path.split_of_not_malformed`), so that each scope that a path can name and
each permission are found again in the path that names them (`Path.split_written`).

A resolver makes a leaf in three ways: from a malformed text (`Resolver.resolve_of_malformed`), from
a path whose permission is not declared (`Resolver.resolve_of_undeclared`) and from one whose
permission is (`Resolver.resolve_of_declared`). Being strict or lenient makes a difference in the
first two only, where one warns and the other fails.
-/

namespace Clearance

namespace Path

/-- The characters before the first separator, all of them if there is none. -/
def before (s : String) : String :=
  String.ofList (s.toList.takeWhile (· ≠ separator))

/-- The characters after the first separator, none of them if there is none. -/
def after (s : String) : String :=
  String.ofList (s.toList.dropWhile (· ≠ separator)).tail

/-- The text has no separator, or nothing before the first one, or nothing after it. -/
def Malformed (s : String) : Prop :=
  separator ∉ s.toList ∨ before s = "" ∨ after s = ""

/-- Some path names the permission of the scope. -/
structure Nameable (p : Path) : Prop where
  scope_ne : p.scope ≠ ""
  separator_notMem : separator ∉ p.scope.toList
  permission_ne : p.permission ≠ ""

theorem divide_eq (cs : List Char) :
    divide cs = if separator ∈ cs then
      some (cs.takeWhile (· ≠ separator), (cs.dropWhile (· ≠ separator)).tail) else none := by
  induction cs with
  | nil => rfl
  | cons c cs ih =>
    rw [divide, ih]
    by_cases hc : c = separator
    · simp [hc]
    · by_cases hs : separator ∈ cs <;> simp [hc, Ne.symm hc, hs]

section

variable {p : Path} {s : String}

theorem split_of_malformed (h : Malformed s) : split s = none := by
  rw [split, divide_eq]
  by_cases hs : separator ∈ s.toList
  · rw [if_pos hs]
    rcases h with h | h | h
    · exact absurd hs h
    · rw [String.ofList_eq_empty_iff.1 h]
    · rw [String.ofList_eq_empty_iff.1 h]
      cases s.toList.takeWhile (· ≠ separator) <;> rfl
  · rw [if_neg hs]

/-- A text that is a path is split at its first separator. -/
theorem split_of_not_malformed (h : ¬ Malformed s) : split s = some ⟨before s, after s⟩ := by
  simp only [Malformed, not_or, Decidable.not_not, before, after, String.ofList_eq_empty_iff] at h
  obtain ⟨hs, hb, ha⟩ := h
  obtain ⟨c, cs, hc⟩ := List.exists_cons_of_ne_nil hb
  obtain ⟨d, ds, hd⟩ := List.exists_cons_of_ne_nil ha
  rw [split, divide_eq, if_pos hs, before, after, hc, hd]

theorem toList_written (p : Path) :
    p.written.toList = p.scope.toList ++ separator :: p.permission.toList := by
  simp [written, separator]

/-- The characters of a scope without separator are all passed over on the way to the first. -/
theorem ne_separator_of_mem (h : separator ∉ p.scope.toList) :
    ∀ c ∈ p.scope.toList, decide (c ≠ separator) = true :=
  fun _ hc => decide_eq_true fun e => h (e ▸ hc)

theorem before_written (h : separator ∉ p.scope.toList) : before p.written = p.scope := by
  rw [before, toList_written, List.takeWhile_append_of_pos (ne_separator_of_mem h)]
  simp

theorem after_written (h : separator ∉ p.scope.toList) : after p.written = p.permission := by
  rw [after, toList_written, List.dropWhile_append_of_pos (ne_separator_of_mem h)]
  simp

/-- The path that names a permission of a scope is split into the two. -/
theorem split_written (h : p.Nameable) : split p.written = some p := by
  have hm : ¬ Malformed p.written := by
    rintro (hs | hb | ha)
    · exact hs (by simp [toList_written])
    · exact h.scope_ne (before_written h.separator_notMem ▸ hb)
    · exact h.permission_ne (after_written h.separator_notMem ▸ ha)
  rw [split_of_not_malformed hm, before_written h.separator_notMem,
    after_written h.separator_notMem]

/-- A text is divided at its first separator. -/
theorem eq_append_of_divide {cs scope permission : List Char}
    (h : divide cs = some (scope, permission)) :
    cs = scope ++ separator :: permission ∧ separator ∉ scope := by
  induction cs generalizing scope with
  | nil => cases h
  | cons c cs ih =>
    rw [divide] at h
    split at h
    · next hc =>
      cases h
      exact ⟨hc ▸ rfl, List.not_mem_nil⟩
    · next hc =>
      obtain ⟨⟨a, b⟩, hab, he⟩ := Option.map_eq_some_iff.1 h
      cases he
      obtain ⟨rfl, ha⟩ := ih hab
      exact ⟨rfl, List.not_mem_cons_of_ne_of_not_mem (Ne.symm hc) ha⟩

/-- What a text is split into are a scope and a permission that paths can name, and the text is
the path that names the two. -/
theorem written_of_split (h : split s = some p) : p.Nameable ∧ p.written = s := by
  unfold split at h
  split at h
  · next c scope d permission hd =>
    cases h
    obtain ⟨hs, hn⟩ := eq_append_of_divide hd
    refine ⟨⟨by simp, by simpa using hn, by simp⟩, String.toList_inj.1 ?_⟩
    rw [toList_written, hs, String.toList_ofList, String.toList_ofList]
  · cases h

end

end Path

/-! ## Leaves -/

/-- Whatever happens shows in the trace. -/
theorem Session.ne_emit_cons (s : Session) (e : Event) (es : List Event) :
    s ≠ s.emit (e :: es) := by
  intro h
  have := congrArg (fun s => s.trace.size) h
  simp at this

/-- The leaf of the polarity from a text that names the permission of a scope, or none. -/
def Predicate.ofPath (polarity : Polarity) (text : Wording) (path : Option Path) : Predicate :=
  .atom (.leaf ⟨polarity, text, path.map (·.scope), path.map (·.permission)⟩)

namespace Resolver

variable {r : Resolver} {text : Wording}

/-- The predicate of the polarity on a text. -/
def predicate (r : Resolver) : Polarity → Wording → Run Predicate
  | .has => r.has
  | .lacks => r.lacks

theorem predicate_eq_map (r : Resolver) (polarity : Polarity) (text : Wording) :
    r.predicate polarity text = Predicate.ofPath polarity text <$> r.resolve text := by
  cases polarity <;> simp [predicate, has, lacks, leaf] <;> rfl

theorem outcome_predicate (r : Resolver) (polarity : Polarity) (text : Wording) (s : Session) :
    (r.predicate polarity text).outcome s =
      (((r.resolve text).outcome s).1.map (.ofPath polarity text),
        ((r.resolve text).outcome s).2) := by
  rw [predicate_eq_map, Run.outcome_map]

theorem resolve_of_malformed (h : Path.Malformed text.text) :
    r.resolve text =
      if r.strict then throw (.malformedPath text)
      else do
        Run.log (.malformedPath text.written)
        return none := by
  rw [resolve, Path.split_of_malformed h]

theorem resolve_of_undeclared {path : Path} (h : Path.split text.text = some path)
    (hd : (path.scope, some path.permission) ∉ r.registry.pairs) :
    r.resolve text =
      if r.strict then throw (.undeclaredPermission path.scope path.permission)
      else do
        Run.log (.undeclaredPath text.written)
        return some path := by
  rw [resolve, h]
  exact if_neg fun hr => hd (Registry.declares_iff_mem_pairs.1 hr)

theorem resolve_of_declared {path : Path} (h : Path.split text.text = some path)
    (hd : (path.scope, some path.permission) ∈ r.registry.pairs) :
    r.resolve text = pure (some path) := by
  rw [resolve, h]
  exact if_pos (Registry.declares_iff_mem_pairs.2 hd)

section

variable (r : Registry) (polarity : Polarity) {path : Path} (s : Session)

/-- From a malformed text a strict resolver makes nothing, and a lenient one a leaf that names
nothing, with a warning. -/
theorem outcome_of_malformed (h : Path.Malformed text.text) :
    (predicate ⟨r, true⟩ polarity text).outcome s = (.error (.malformedPath text), s) ∧
      (predicate ⟨r, false⟩ polarity text).outcome s =
        (.ok (.ofPath polarity text none), s.emit [.logged (.malformedPath text.written)]) := by
  constructor
  · rw [outcome_predicate, resolve_of_malformed h]
    rfl
  · rw [outcome_predicate, resolve_of_malformed h]
    simp [Except.map]

/-- From a path whose permission is not declared a strict resolver makes nothing either, and a
lenient one the leaf on it, with a warning. -/
theorem outcome_of_undeclared (h : Path.split text.text = some path)
    (hd : (path.scope, some path.permission) ∉ r.pairs) :
    (predicate ⟨r, true⟩ polarity text).outcome s =
        (.error (.undeclaredPermission path.scope path.permission), s) ∧
      (predicate ⟨r, false⟩ polarity text).outcome s =
        (.ok (.ofPath polarity text path), s.emit [.logged (.undeclaredPath text.written)]) := by
  constructor
  · rw [outcome_predicate, resolve_of_undeclared h hd]
    rfl
  · rw [outcome_predicate, resolve_of_undeclared h hd]
    simp [Except.map]

/-- From a path whose permission is declared both make the leaf on it. -/
theorem outcome_of_declared (strict : Bool) (h : Path.split text.text = some path)
    (hd : (path.scope, some path.permission) ∈ r.pairs) :
    (predicate ⟨r, strict⟩ polarity text).outcome s = (.ok (.ofPath polarity text path), s) := by
  rw [outcome_predicate, resolve_of_declared h hd]
  rfl

/-- A strict resolver fails and a lenient one makes a leaf with a warning, or both make the same
leaf without one. -/
theorem strict_lenient_cases (text : Wording) :
    (∃ e p, ∃ record : Record, record.level = .warning ∧
      (predicate ⟨r, true⟩ polarity text).outcome s = (.error e, s) ∧
      (predicate ⟨r, false⟩ polarity text).outcome s = (.ok p, s.emit [.logged record])) ∨
    ∃ p, ∀ strict, (predicate ⟨r, strict⟩ polarity text).outcome s = (.ok p, s) := by
  by_cases h : Path.Malformed text.text
  · exact .inl ⟨_, _, _, rfl, outcome_of_malformed r polarity s h⟩
  have hsplit := Path.split_of_not_malformed h
  by_cases hd : (Path.before text.text, some (Path.after text.text)) ∈ r.pairs
  · exact .inr ⟨_, fun strict => outcome_of_declared r polarity s strict hsplit hd⟩
  · exact .inl ⟨_, _, _, rfl, outcome_of_undeclared r polarity s hsplit hd⟩

/-- A lenient resolver makes the leaf on a path, declared or not. -/
theorem lenient_of_split (h : Path.split text.text = some path) :
    ((predicate ⟨r, false⟩ polarity text).outcome s).1 = .ok (.ofPath polarity text path) := by
  by_cases hd : (path.scope, some path.permission) ∈ r.pairs
  · rw [outcome_of_declared r polarity s false h hd]
  · rw [(outcome_of_undeclared r polarity s h hd).2]

end

/-- From a malformed text a strict resolver makes nothing, and a lenient one a leaf without scope
and permission, with a warning. From a text that names a permission of a scope that is not declared
a strict resolver makes nothing either, and a lenient one the leaf on the two, with a warning. From
one that names a declared permission both make the same leaf, without a word. So a lenient
resolver warns just where a strict one fails, and a strict one writes nothing. The text of a
scope and a permission around a separator names the two. -/
theorem predicate_strict_lenient (r : Registry) (polarity : Polarity) (text : Wording)
    (s : Session) :
    let strict := (predicate ⟨r, true⟩ polarity text).outcome s
    let lenient := (predicate ⟨r, false⟩ polarity text).outcome s
    let scope := Path.before text.text
    let permission := Path.after text.text
    (Path.Malformed text.text →
      strict = (.error (.malformedPath text), s) ∧
      lenient = (.ok (.atom (.leaf ⟨polarity, text, none, none⟩)),
        s.emit [.logged (.malformedPath text.written)])) ∧
    (¬ Path.Malformed text.text → (scope, some permission) ∉ r.pairs →
      strict = (.error (.undeclaredPermission scope permission), s) ∧
      lenient = (.ok (.atom (.leaf ⟨polarity, text, some scope, some permission⟩)),
        s.emit [.logged (.undeclaredPath text.written)])) ∧
    (¬ Path.Malformed text.text → (scope, some permission) ∈ r.pairs →
      strict = (.ok (.atom (.leaf ⟨polarity, text, some scope, some permission⟩)), s) ∧
      lenient = strict) ∧
    ((∃ e, strict.1 = .error e) ↔
      ∃ record : Record, record.level = .warning ∧ lenient.2 = s.emit [.logged record]) ∧
    strict.2 = s ∧
    ∀ x p, x ≠ "" → Path.separator ∉ x.toList → p ≠ "" → ∀ path : Wording,
      path.text = x ++ "." ++ p → Path.split path.text = some ⟨x, p⟩ ∧
        ((predicate ⟨r, false⟩ polarity path).outcome s).1 =
          .ok (.atom (.leaf ⟨polarity, path, some x, some p⟩)) := by
  intro strict lenient scope permission
  have hmalformed := fun h : Path.Malformed text.text => outcome_of_malformed r polarity s h
  have hsplit : ¬ Path.Malformed text.text → Path.split text.text = some ⟨scope, permission⟩ :=
    Path.split_of_not_malformed
  have hundeclared := fun h => outcome_of_undeclared r polarity s (hsplit h)
  have hdeclared := fun strict h => outcome_of_declared r polarity s strict (hsplit h)
  refine ⟨hmalformed, hundeclared, fun h hd => ⟨hdeclared true h hd, ?_⟩, ?_, ?_, ?_⟩
  · exact (hdeclared false h hd).trans (hdeclared true h hd).symm
  · rcases strict_lenient_cases r polarity s text with ⟨e, p, record, hw, hs, hl⟩ | ⟨p, h⟩
    · exact ⟨fun _ => ⟨record, hw, congrArg Prod.snd hl⟩, fun _ => ⟨e, congrArg Prod.fst hs⟩⟩
    · constructor
      · rintro ⟨e, he⟩
        cases (congrArg Prod.fst (h true)).symm.trans he
      · rintro ⟨record, -, hr⟩
        exact absurd ((congrArg Prod.snd (h false)).symm.trans hr) (s.ne_emit_cons _ _)
  · rcases strict_lenient_cases r polarity s text with ⟨e, p, record, hw, hs, hl⟩ | ⟨p, h⟩
    · exact congrArg Prod.snd hs
    · exact congrArg Prod.snd (h true)
  · intro x p hx hs hp path ht
    have hsplit : Path.split path.text = some ⟨x, p⟩ :=
      ht ▸ Path.split_written (p := ⟨x, p⟩) ⟨hx, hs, hp⟩
    exact ⟨hsplit, lenient_of_split r polarity s hsplit⟩

end Resolver

end Clearance
