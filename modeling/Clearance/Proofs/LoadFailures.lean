import Clearance.Proofs.Loading

/-!
# How loading a registry fails

A path with NUL in it, a place without a file and octets that are no text are three ways not to read
a file (`Storage.Tree.readText_cases`). Once there is a text, either it is refused as a declaration,
or its modules can be put together, or a scope has been declared twice (`Registry.ofText_cases`).
There is no other outcome, and which one it is follows from the path and the tree
(`Registry.load_outcomes`).

A failure of the configuration, which names its source, comes of a place without a file only. A file
that is there and does not hold a text fails in another way, and so does a path with NUL in it
(`Registry.load_undecodable`).
-/

namespace Clearance

namespace Storage.Tree

/-- The location leads to a file that holds the text. -/
def Holds (tree : Tree) (location : Location) (text : String) : Prop :=
  '\x00' ∉ location.given.toList ∧ ∃ octets, tree.read (.ofText location.given) = .ok octets ∧
    Text.Utf8.decode octets = .ok text

/-- A file is read unless there is NUL in its path, nothing can be found there, or what is found is
no text. What fails to be read is left alone. -/
theorem readText_cases (tree : Tree) (location : Location) (s : Session) :
    ('\x00' ∈ location.given.toList ∧
      (tree.readText location).outcome s = (.error .nullInPath, s)) ∨
    ('\x00' ∉ location.given.toList ∧ ∃ fault, tree.read (.ofText location.given) = .error fault ∧
      (tree.readText location).outcome s = (.error (.configuration location.source
        (fault.message (Path.ofText location.given).written) (some fault)), s)) ∨
    ('\x00' ∉ location.given.toList ∧ ∃ octets refusal,
      tree.read (.ofText location.given) = .ok octets ∧
      Text.Utf8.decode octets = .error refusal ∧
      (tree.readText location).outcome s = (.error (.undecodable (.ofUtf8 refusal)), s)) ∨
    ∃ text, tree.Holds location text ∧ (tree.readText location).outcome s =
      (.ok (String.ofList (Text.normalNewlines text.toList)), s) := by
  by_cases hnull : '\x00' ∈ location.given.toList
  · have hout : (tree.readText location).outcome s = (.error .nullInPath, s) := by
      rw [readText, if_pos hnull, Run.outcome_throw]
    exact .inl ⟨hnull, hout⟩
  cases hread : tree.read (.ofText location.given) with
  | error fault =>
    refine .inr (.inl ⟨hnull, fault, rfl, ?_⟩)
    simp only [readText, if_neg hnull, hread, Run.outcome_throw]
  | ok octets =>
    cases htext : Text.Utf8.decode octets with
    | error refusal =>
      refine .inr (.inr (.inl ⟨hnull, octets, refusal, rfl, htext, ?_⟩))
      simp only [readText, if_neg hnull, hread, htext, Run.outcome_throw]
    | ok text =>
      have hholds : tree.Holds location text := ⟨hnull, octets, hread, htext⟩
      exact .inr (.inr (.inr ⟨text, hholds, outcome_readText hnull hread htext s⟩))

end Storage.Tree

/-- Loading a registry from the source is said to fail like this: the source cannot be read, or what
it holds is refused, or declares a scope twice. -/
def Failure.OfLoading (source : String) : Failure → Prop
  | .configuration origin _ _ => origin = source
  | .rejected _ | .duplicateScope _ => True
  | _ => False

namespace Registry

/-- A text that is read declares a registry, or is refused, or declares a scope twice. -/
theorem ofText_cases (text : String) (s : Session) :
    (∃ r, ((ofText text).outcome s).1 = .ok r) ∨
    (∃ issues, issues ≠ [] ∧
      ((ofText text).outcome s).1 = .error (.rejected ⟨.registry, .document, issues⟩)) ∨
    ∃ scope, ((ofText text).outcome s).1 = .error (.duplicateScope scope) := by
  cases hd : Document.ofText? text with
  | none =>
    refine .inr (.inl ⟨[⟨[], .malformed⟩], List.cons_ne_nil _ _, ?_⟩)
    rw [ofText, Document.accept, hd]
    rfl
  | some d =>
    obtain ⟨t, -, ht⟩ := outcome_ofText (s := s) hd
    rw [ht]
    cases d.toValue.registryIssues s.lists with
    | cons issue issues => exact .inr (.inl ⟨_, List.cons_ne_nil _ _, rfl⟩)
    | nil =>
      dsimp only
      cases hr : ((ofDeclarations (d.toValue.declaredModules s.lists)).outcome t).1 with
      | ok r => exact .inl ⟨r, rfl⟩
      | error e =>
        obtain ⟨m, -, rfl⟩ := error_of_assemble hr
        exact .inr (.inr ⟨m.name, rfl⟩)

/-- Loading a registry has just these outcomes. It fails for NUL in the path if there is any. Else
it fails as a configuration that cannot be read, with the name of the source and with the fault, if
there is no file to be found; and as octets that are no text if there is one that holds none. If the
file holds a text, there is a registry, or the declaration is refused or declares a scope twice. So
it fails as it is said to unless there is NUL in the path or no text in the file. -/
theorem load_outcomes (tree : Storage.Tree) (location : Storage.Location) (s : Session) :
    let path := Storage.Path.ofText location.given
    let answer := ((load tree location).outcome s).1
    (answer = .error .nullInPath ↔ '\x00' ∈ location.given.toList) ∧
    (∀ source detail reason, answer = .error (.configuration source detail reason) ↔
      '\x00' ∉ location.given.toList ∧ ∃ fault, tree.read path = .error fault ∧
        source = location.source ∧ detail = fault.message path.written ∧ reason = some fault) ∧
    (∀ reason, answer = .error (.undecodable reason) ↔
      '\x00' ∉ location.given.toList ∧ ∃ octets refusal, tree.read path = .ok octets ∧
        Text.Utf8.decode octets = .error refusal ∧ reason = .ofUtf8 refusal) ∧
    ((∃ text, tree.Holds location text) ↔ (∃ r, answer = .ok r) ∨
      (∃ issues, issues ≠ [] ∧ answer = .error (.rejected ⟨.registry, .document, issues⟩)) ∨
      ∃ scope, answer = .error (.duplicateScope scope)) ∧
    ((∀ e, answer = .error e → e.OfLoading location.source) ↔
      '\x00' ∉ location.given.toList ∧
        ∀ octets, tree.read path = .ok octets → ∃ text, Text.Utf8.decode octets = .ok text) := by
  intro path answer
  have hload : answer = match (tree.readText location).outcome s with
      | (.ok text, t) => ((ofText text).outcome t).1
      | (.error e, _) => .error e := by
    simp only [answer, load, Run.outcome_bind]
    rcases (tree.readText location).outcome s with ⟨e | text, t⟩ <;> rfl
  rcases tree.readText_cases location s with ⟨hnull, h⟩ | ⟨hnull, fault, hread, h⟩ |
    ⟨hnull, octets, refusal, hread, htext, h⟩ | ⟨text, ⟨hnull, octets, hread, htext⟩, h⟩ <;>
    rw [h] at hload
  · simp [hload, hnull, Storage.Tree.Holds, Failure.OfLoading]
  · simp [hload, hnull, path, hread, Storage.Tree.Holds, Failure.OfLoading, eq_comm]
  · simp [hload, hnull, path, hread, htext, Storage.Tree.Holds, Failure.OfLoading, eq_comm]
  · have hholds : ∃ text, tree.Holds location text := ⟨text, hnull, octets, hread, htext⟩
    dsimp only at hload
    rcases ofText_cases (String.ofList (Text.normalNewlines text.toList)) s with
      ⟨r, hr⟩ | ⟨issues, hne, hr⟩ | ⟨scope, hr⟩ <;> rw [hr] at hload
    · simp [hload, hnull, path, hread, htext, hholds]
    · simp [hload, hnull, path, hread, htext, hholds, hne, Failure.OfLoading]
    · simp [hload, hnull, path, hread, htext, hholds, Failure.OfLoading]

/-- A file is found in which the first octet starts no character. Loading it fails, and neither as a
configuration that cannot be read nor in another way in which it is said to fail. A path with NUL in
it is no better. -/
theorem load_undecodable :
    let tree := Storage.Tree.empty.withFile ["bad.json"] [0xff]
    (∃ e, ((load tree (.text "bad.json")).outcome {}).1 = .error e ∧
      e.name = "UnicodeDecodeError" ∧ ¬ e.OfLoading "bad.json") ∧
    ∃ e, ((load tree (.text "bad\x00")).outcome {}).1 = .error e ∧
      e.name = "ValueError" ∧ ¬ e.OfLoading "bad\x00" := by
  exact ⟨⟨_, rfl, rfl, nofun⟩, _, rfl, rfl, nofun⟩

end Registry

end Clearance
