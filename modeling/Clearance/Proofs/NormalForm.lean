import Clearance.Proofs.DeclarationContent
import Clearance.Proofs.Loading
import Mathlib.Data.List.Induction

/-!
# The normal form of a module declaration

A declaration of a module has a normal form, in which no permission is repeated and each stands
where it was first (`ModuleDeclaration.HasNormalForm`). There is no other than the one that is
computed (`ModuleDeclaration.HasNormalForm.eq_normal`), and a sound declaration is read into it,
whether it is given as a value or in a document, since it has no issues in either
(`ModuleDeclaration.reads_normal`). What is in normal form is read into itself, and as many
permissions are counted when its module is registered as it lists
(`ModuleDeclaration.HasNormalForm.records`).
-/

namespace Clearance

/-- What is kept stands in the order of the first occurrences. -/
theorem pairwise_idxOf_distinct {α : Type} [BEq α] [LawfulBEq α] [Hashable α] (xs : List α) :
    (distinct xs).Pairwise fun x y => xs.idxOf x < xs.idxOf y := by
  rw [distinct_eq_eraseDups]
  -- one more item at the end is kept if it is new, and then it stands behind all others
  induction xs using List.reverseRecOn with
  | nil => exact .nil
  | append_singleton xs x ih =>
    have hold : ∀ y ∈ xs.eraseDups, (xs ++ [x]).idxOf y = xs.idxOf y := fun y hy =>
      List.idxOf_append_of_mem (List.mem_eraseDups.1 hy)
    rw [List.eraseDups_append, List.pairwise_append]
    refine ⟨ih.imp_of_mem fun hy hz h => by rwa [hold _ hy, hold _ hz], ?_, fun y hy z hz => ?_⟩
    · by_cases hx : x ∈ xs <;> simp [List.removeAll, hx, List.eraseDups_cons]
    · obtain ⟨hz, hnew⟩ : z = x ∧ z ∉ xs := by
        simpa [List.removeAll] using hz
      rw [hold y hy, List.idxOf_append_of_notMem hnew]
      exact Nat.lt_add_right _ (List.idxOf_lt_length_iff.2 (List.mem_eraseDups.1 hy))

namespace ModuleDeclaration

/-- In `n` are the permissions of `d`, each once and in the order of their first occurrences. -/
structure HasNormalForm (d n : ModuleDeclaration) : Prop where
  name : n.name = d.name
  nodup : n.permissions.Nodup
  mem : ∀ q, q ∈ n.permissions ↔ q ∈ d.permissions
  first : n.permissions.Pairwise fun q q' => d.permissions.idxOf q < d.permissions.idxOf q'

/-- The declaration with each permission once, where it is first. -/
def normal (d : ModuleDeclaration) : ModuleDeclaration :=
  ⟨d.name, distinct d.permissions⟩

/-- The declaration as a document. -/
def toDocument (d : ModuleDeclaration) : Document :=
  .object [("name", .text d.name), ("permissions", .list (d.permissions.map .text))]

variable {d n : ModuleDeclaration}

/-! ## What the normal form is -/

theorem hasNormalForm_normal (d : ModuleDeclaration) : d.HasNormalForm d.normal where
  name := rfl
  nodup := nodup_distinct d.permissions
  mem _ := mem_distinct
  first := pairwise_idxOf_distinct d.permissions

/-- The normal form is determined, as its items are those of the declaration and their order is
strict. -/
theorem HasNormalForm.eq_normal (h : d.HasNormalForm n) : n = d.normal := by
  have hnormal := d.hasNormalForm_normal
  have hperm : n.permissions.Perm d.normal.permissions :=
    (List.perm_ext_iff_of_nodup h.nodup hnormal.nodup).2 fun q =>
      (h.mem q).trans (hnormal.mem q).symm
  have hitems : n.permissions = d.normal.permissions :=
    hperm.eq_of_pairwise (fun _ _ _ _ hlt hgt => absurd hgt (Nat.lt_asymm hlt))
      h.first hnormal.first
  cases n
  exact congrArg₂ ModuleDeclaration.mk h.name hitems

theorem HasNormalForm.sameContent (h : d.HasNormalForm n) : d.SameContent n :=
  ⟨h.name.symm, fun q => (h.mem q).symm⟩

/-- What is in normal form stays as it is. -/
theorem HasNormalForm.normal_eq (h : d.HasNormalForm n) : n.normal = n :=
  congrArg (ModuleDeclaration.mk n.name) (distinct_of_nodup h.nodup)

/-! ## How it is read -/

theorem toValue_toDocument (d : ModuleDeclaration) : d.toDocument.toValue = d.toValue := by
  have hitems : Document.toValues (d.permissions.map .text) = d.permissions.map .text := by
    rw [Document.toValues_eq_map, List.map_map]
    exact List.map_congr_left fun q _ => rfl
  show Value.mapping .table [(.text "name", .text d.name),
    (.text "permissions", .container .list (Document.toValues (d.permissions.map .text)))] = _
  rw [hitems]
  rfl

/-- However it is given, a sound declaration is read into its normal form. -/
theorem reads_normal {α : Type} {p : Payload α} {Ok : α → Prop} {view : α → Value} {x : α}
    {s : Session} (hp : p.Reflects s.lists Ok view) (hx : Ok x) (hview : view x = d.toValue)
    (hd : d.Sound) (hne : d.permissions ≠ []) :
    (p.accept .module (p.readModule [] x)).Reads s d.normal := by
  have hread := hp.reads_readModule hx [] rfl
  have hissues : d.toValue.moduleIssues s.lists [] = [] :=
    (Value.moduleIssues_eq_nil [] d.toValue).2 (declaresModule_toValue hd hne)
  rw [hview, hissues, declaredModule_toValue] at hread
  exact hread.bind fun t _ => .pure _

/-! ## Its module -/

/-- As no permission is repeated, the module has as many as are listed. -/
theorem HasNormalForm.size_toModule (h : d.HasNormalForm n) :
    n.toModule.size = n.permissions.length := by
  have hnodup : (n.permissions.map some).Nodup := h.nodup.map fun _ _ => Option.some.inj
  show (distinct (n.permissions.map some)).length + 0 = _
  rw [distinct_of_nodup hnodup, List.length_map, Nat.add_zero]

/-- The module is registered without a warning, and all permissions listed are counted. -/
theorem HasNormalForm.records (h : d.HasNormalForm n) (hd : d.Sound) :
    n.toModule.records = [.registering d.name n.permissions.length] := by
  have hname : n.toModule.name = d.name := h.name
  have hnodot : Path.separator ∉ n.toModule.name.toList := hname ▸ hd.name.2
  rw [Module.records, if_neg hnodot, h.size_toModule, hname]
  rfl

/-- A declaration of a module that has a sound name and lists at least one permission, all of them
sound, is accepted in its normal form: no permission is repeated, those of the declaration are there
and no others, and they stand in the order in which each was first. It is the same from a document.
What is in normal form is accepted as it is. Its module has the permissions of the declaration, and
as many are counted in the log when it is registered as the normal form lists. -/
theorem accept_normal (d : ModuleDeclaration) (s : Session) (hd : d.Sound)
    (hne : d.permissions ≠ []) :
    ∃ n : ModuleDeclaration, d.HasNormalForm n ∧
      ((Payload.value.accept .module (Payload.value.readModule [] d.toValue)).outcome s).1 = .ok n ∧
      (∀ text, Document.ofText? text = some d.toDocument →
        ((Document.accept .module (Payload.document.readModule []) text).outcome s).1 = .ok n) ∧
      (∀ t, ((Payload.value.accept .module
        (Payload.value.readModule [] n.toValue)).outcome t).1 = .ok n) ∧
      n.toModule.name = d.name ∧ n.toModule.foreign = [] ∧
      (∀ p, p ∈ n.toModule.permissions ↔ ∃ q ∈ d.permissions, some q = p) ∧
      ∀ r t, d.name ∉ r.scopes → ∃ r', (Registry.register n.toModule r).outcome t =
        (.ok r', t.emit [.logged (.registering d.name n.permissions.length)]) := by
  have hvalue : ∀ (d : ModuleDeclaration) (t : Session), d.Sound → d.permissions ≠ [] →
      (Payload.value.accept .module (Payload.value.readModule [] d.toValue)).Reads t d.normal :=
    fun d t => reads_normal (Payload.reflects_value t.lists) jsonIn_toValue rfl
  have hdocument := reads_normal (s := s) (Payload.reflects_document s.lists) trivial
    d.toValue_toDocument hd hne
  have h := d.hasNormalForm_normal
  refine ⟨d.normal, h, ?_, fun text htext => ?_, fun t => ?_, rfl, rfl, fun p => ?_,
    fun r t hr => ?_⟩
  · obtain ⟨t, ht, -⟩ := hvalue d s hd hne
    rw [ht]
  · obtain ⟨t, ht, -⟩ := hdocument
    rw [Document.accept, htext]
    simp only [ht]
  · have hsame := h.sameContent
    obtain ⟨u, hu, -⟩ := hvalue d.normal t (hsame.sound hd) (hsame.permissions_ne_nil hne)
    rw [hu, h.normal_eq]
  · simp only [mem_permissions_toModule, h.mem]
  · have hr' : d.normal.toModule.name ∉ r.scopes := hr
    rw [Registry.outcome_register, dif_neg hr', h.records hd]
    exact ⟨_, rfl⟩

/-- Of three permissions with a repeated one, two are kept and counted. -/
theorem accept_normal_repeated :
    let d : ModuleDeclaration := ⟨"user", ["WRITE", "READ", "WRITE"]⟩
    let n : ModuleDeclaration := ⟨"user", ["WRITE", "READ"]⟩
    d.Sound ∧ d.permissions ≠ [] ∧
      ((Payload.value.accept .module (Payload.value.readModule [] d.toValue)).outcome {}).1 =
        .ok n ∧
      ∃ r, (Registry.register n.toModule .empty).outcome {} =
        (.ok r, Session.emit {} [.logged (.registering "user" 2)]) := by
  intro d n
  have hd : d.Sound := by
    have hpart : ∀ q ∈ ["user", "READ", "WRITE"], Path.IsPart q := by
      unfold Path.IsPart
      decide
    exact ⟨hpart _ (by decide), fun q hq => hpart q (by revert q; decide)⟩
  have hne : d.permissions ≠ [] := nofun
  obtain ⟨n', hform, hread, -, -, -, -, -, hcount⟩ := accept_normal d {} hd hne
  have hn : n' = n := hform.eq_normal
  subst hn
  exact ⟨hd, hne, hread, hcount .empty {} List.not_mem_nil⟩

end ModuleDeclaration

end Clearance
