import Clearance.Proofs.Noninterference

/-!
# What more grants do to an answer

A plain tree that holds on a context holds on any other one that favours it
(`Predicate.Favours`): what is granted in the first is granted in the second, with each permission
that a leaf has to find still there and each that a leaf must not find still missing. So granting a
scope that was not granted never turns a tree down, and without leaves that ask for a lack neither
do more grants (`Predicate.evaluate_mono`).

The answers of the leaves move in one direction (`Predicate.answerIn_of_favours`), and with them
that of the tree (`Predicate.verdict_mono`). This holds as long as no two scopes draw from one
source. Where they do, the first one that is read leaves nothing to the other, and a tree may be
turned down on a context that favours it (`Predicate.evaluate_lost_to_shared_source`).
-/

namespace Clearance

namespace Context

variable {c c' : Value} {s s' : Session} {x : String} {ps ps' : List Identifier}

/-- The identifiers granted for a scope are what they are. -/
theorem Grants.unique (h : Grants c s x ps) (h' : Grants c s x ps') : ps = ps' := by
  obtain ⟨v, ns, hv, -, hi, -, rfl⟩ := h
  obtain ⟨v', ns', hv', -, hi', -, rfl⟩ := h'
  obtain rfl : v = v' := Option.some.inj (hv.symm.trans hv')
  obtain rfl : ns = ns' := Except.ok.inj (hi.symm.trans hi')
  rfl

theorem Grants.not_ungranted (h : Grants c s x ps) : ¬ Ungranted c x := by
  obtain ⟨v, ns, hv, hr, -⟩ := h
  rintro (hn | hn) <;> rw [hn] at hv <;> cases hv
  cases hr

end Context

namespace Predicate

/-- A leaf of the tree asks for the permission of the scope, with the polarity. -/
def Asks (p : Predicate) (polarity : Polarity) (x q : String) : Prop :=
  ∃ text, .leaf ⟨polarity, text, some x, some q⟩ ∈ p.atoms

/-- If the scope is granted in the first context, then also in the second. There each permission
that the tree has to find is among the grants if it was, and each that it must not find is missing
if it was. -/
def Favours (p : Predicate) (c : Value) (s : Session) (c' : Value) (s' : Session) (x : String) :
    Prop :=
  ∀ ps, Context.Grants c s x ps → ∃ ps', Context.Grants c' s' x ps' ∧
    (∀ q, p.Asks .has x q → some q ∈ ps → some q ∈ ps') ∧
    ∀ q, p.Asks .lacks x q → some q ∉ ps → some q ∉ ps'

variable {p : Predicate} {c c' : Value} {s s' : Session} {l : Leaf}

/-- A leaf that holds on a context still holds on one that favours its tree. -/
theorem answerIn_of_favours (hc : c.mapping?.isSome) (hc' : c'.mapping?.isSome)
    (hl : .leaf l ∈ p.atoms) (hr : ∀ x ∈ p.scopes, Context.Readable c s x)
    (hr' : ∀ x ∈ p.scopes, Context.Readable c' s' x)
    (hf : ∀ x ∈ p.scopes, p.Favours c s c' s' x) (h : l.answerIn c s = .ok true) :
    l.answerIn c' s' = .ok true := by
  have hscope : ∀ x, l.scope = some x → x ∈ p.scopes := fun x => mem_scopes_of_leaf hl
  obtain ⟨x, q, ps, hx, hq, hg, hh⟩ :=
    (Leaf.answerIn_eq_true_iff hc fun x hx => hr x (hscope x hx)).1 h
  obtain ⟨ps', hg', hhas, hlacks⟩ := hf x (hscope x hx) ps hg
  refine (Leaf.answerIn_eq_true_iff hc' fun x hx => hr' x (hscope x hx)).2
    ⟨x, q, ps', hx, hq, hg', ?_⟩
  obtain ⟨polarity, text, scope, permission⟩ := l
  obtain rfl : scope = some x := hx
  obtain rfl : permission = some q := hq
  cases polarity with
  | has => exact decide_eq_true (hhas q ⟨text, hl⟩ (of_decide_eq_true hh))
  | lacks =>
    have hn : some q ∉ ps := by simpa [Polarity.holds] using hh
    simpa [Polarity.holds] using hlacks q ⟨text, hl⟩ hn

/-- A plain tree that holds on a context holds on one that favours it. -/
theorem evaluate_of_favours (hp : p.Plain) (hc : c.mapping?.isSome) (hc' : c'.mapping?.isSome)
    (hu : Context.Unshared c p.scopes) (hu' : Context.Unshared c' p.scopes)
    (hr : ∀ x ∈ p.scopes, Context.Readable c s x)
    (hr' : ∀ x ∈ p.scopes, Context.Readable c' s' x)
    (hpass : ((p.evaluate c).outcome s).1 = .ok true)
    (hf : ∀ x ∈ p.scopes, p.Favours c s c' s' x) : ((p.evaluate c').outcome s').1 = .ok true := by
  rw [evaluate_plain hp hu] at hpass
  rw [evaluate_plain hp hu']
  refine verdict_mono (fun a ha => ?_) (fun a ha => ?_) hpass
  · obtain ⟨l, rfl⟩ := hp a ha
    exact Leaf.answerIn_of_readable hc' fun x hx => hr' x (mem_scopes_of_leaf ha hx)
  · obtain ⟨l, rfl⟩ := hp a ha
    exact answerIn_of_favours hc hc' ha hr hr' hf

/-- Let the scopes of a plain tree be readable in two contexts, in each of which no two of them draw
from one source. If the tree holds on the first context it holds on the second, provided that the
second favours it. It does so in particular if a scope that was not granted is granted now, whatever
for, and the others are granted alike; and, if no leaf asks for a lack, if each scope is granted
what it was and maybe more. -/
theorem evaluate_mono (p : Predicate) (hp : p.Plain) (c c' : Value) (s s' : Session)
    (hc : c.mapping?.isSome) (hc' : c'.mapping?.isSome)
    (hu : Context.Unshared c p.scopes) (hu' : Context.Unshared c' p.scopes)
    (hr : ∀ x ∈ p.scopes, Context.Readable c s x)
    (hr' : ∀ x ∈ p.scopes, Context.Readable c' s' x)
    (hpass : ((p.evaluate c).outcome s).1 = .ok true) :
    ((∀ x ∈ p.scopes, p.Favours c s c' s' x) → ((p.evaluate c').outcome s').1 = .ok true) ∧
    (∀ y, Context.Ungranted c y → (∃ ps, Context.Grants c' s' y ps) →
      (∀ x ∈ p.scopes, x ≠ y → Context.SameGrants c s c' s' x) →
      ((p.evaluate c').outcome s').1 = .ok true) ∧
    ((∀ l, .leaf l ∈ p.atoms → l.polarity = .has) →
      (∀ x ∈ p.scopes, ∀ ps, Context.Grants c s x ps →
        ∃ ps', Context.Grants c' s' x ps' ∧ ∀ i ∈ ps, i ∈ ps') →
      ((p.evaluate c').outcome s').1 = .ok true) := by
  have main : (∀ x ∈ p.scopes, p.Favours c s c' s' x) →
      ((p.evaluate c').outcome s').1 = .ok true :=
    evaluate_of_favours hp hc hc' hu hu' hr hr' hpass
  refine ⟨main, fun y hy hgrants hsame => main fun x hx ps hg => ?_,
    fun hhas hmore => main fun x hx ps hg => ?_⟩
  · -- what was granted is not the scope that is granted now
    have hxy : x ≠ y := fun h => hg.not_ungranted (h ▸ hy)
    rcases hsame x hx hxy with ⟨hn, -⟩ | ⟨qs, qs', hqs, hqs', heq⟩
    · exact absurd hn hg.not_ungranted
    · obtain rfl := hg.unique hqs
      exact ⟨qs', hqs', fun q _ => (heq q).1, fun q _ hq h => hq ((heq q).2 h)⟩
  · obtain ⟨ps', hg', hsub⟩ := hmore x hx ps hg
    refine ⟨ps', hg', fun q _ => hsub q, fun q ⟨text, ht⟩ => ?_⟩
    cases hhas _ ht

/-- A scope is granted that was absent, and another one is granted something else beside what it
was; the leaf that decides is another one than before. -/
theorem evaluate_mono_granted :
    let p : Predicate := .group .allOf
      [.group .anyOf [.atom (.leaf ⟨.has, "lab.READ", some "lab", some "READ"⟩),
          .atom (.leaf ⟨.has, "user.READ", some "user", some "READ"⟩)],
        .atom (.leaf ⟨.lacks, "user.1", some "user", some "1"⟩)]
    let c : Value := .mapping .table [(.text "user", .container .list [.text "READ"])]
    let c' : Value := .mapping .table
      [(.text "lab", .source 0), (.text "user", .container .tuple [.null, .text "READ"])]
    let s' : Session := { sources := [⟨[.text "READ"], none⟩] }
    ((p.evaluate c).outcome {}).1 = .ok true ∧ ((p.evaluate c').outcome s').1 = .ok true := by
  intro p c c' s'
  have hp : p.Plain ∧ ∀ x ∈ p.scopes, x = "lab" ∨ x = "user" := by
    simp [Plain, mem_scopes, p, atoms, atomsAll, Atom.scopes]
  have hu : Context.Unshared c p.scopes := by
    intro x hx y _ _ id h
    rcases hp.2 x hx with rfl | rfl <;> cases h
  have hu' : Context.Unshared c' p.scopes := by
    intro x hx y hy hyx id h
    rcases hp.2 x hx with rfl | rfl
    · rcases hp.2 y hy with rfl | rfl
      · exact absurd rfl hyx
      · intro h'
        cases h'
    · cases h
  have huser : Context.Grants c {} "user" [some "READ"] := ⟨_, _, rfl, rfl, rfl, rfl, rfl⟩
  have hlab' : Context.Grants c' s' "lab" [some "READ"] := ⟨_, _, rfl, rfl, rfl, rfl, rfl⟩
  have huser' : Context.Grants c' s' "user" [none, some "READ"] := ⟨_, _, rfl, rfl, rfl, rfl, rfl⟩
  have hr : ∀ x ∈ p.scopes, Context.Readable c {} x ∧ Context.Readable c' s' x := by
    intro x hx
    rcases hp.2 x hx with rfl | rfl
    · exact ⟨.inl (.inl rfl), .inr ⟨_, hlab'⟩⟩
    · exact ⟨.inr ⟨_, huser⟩, .inr ⟨_, huser'⟩⟩
  have hpass : ((p.evaluate c).outcome {}).1 = .ok true := by
    rw [evaluate_eq_judge]
    rfl
  refine ⟨hpass, (evaluate_mono p hp.1 c c' {} s' rfl rfl hu hu' (fun x hx => (hr x hx).1)
    (fun x hx => (hr x hx).2) hpass).1 ?_⟩
  intro x hx ps hg
  rcases hp.2 x hx with rfl | rfl
  · exact absurd (.inl rfl) hg.not_ungranted
  · obtain rfl := hg.unique huser
    exact ⟨_, huser', by simp, by simp [Asks, p, atoms, atomsAll]⟩

/-- The same grants, once in two lists and once drawn for both scopes from one source: the scope
that is read first leaves nothing to the other. So the tree `p` loses a grant that it has to find,
and the tree `q` one that it must not find, on whichever side the source is. -/
theorem evaluate_lost_to_shared_source :
    let p : Predicate := .group .allOf
      [.atom (.leaf ⟨.has, "a.READ", some "a", some "READ"⟩),
        .atom (.leaf ⟨.has, "b.READ", some "b", some "READ"⟩)]
    let q : Predicate := .group .allOf
      [.atom (.leaf ⟨.has, "a.READ", some "a", some "READ"⟩),
        .atom (.leaf ⟨.lacks, "b.READ", some "b", some "READ"⟩)]
    let lists : Value := .mapping .table [(.text "a", .container .list [.text "READ"]),
      (.text "b", .container .list [.text "READ"])]
    let shared : Value := .mapping .table [(.text "a", .source 0), (.text "b", .source 0)]
    let s : Session := { sources := [⟨[.text "READ"], none⟩] }
    (p.Plain ∧ q.Plain ∧ lists.mapping?.isSome ∧ shared.mapping?.isSome ∧
      ∀ x ∈ p.scopes ++ q.scopes, Context.Readable lists s x ∧ Context.Readable shared s x) ∧
    ((∀ x ∈ p.scopes, p.Favours lists s shared s x) ∧
      ((p.evaluate lists).outcome s).1 = .ok true ∧
      ((p.evaluate shared).outcome s).1 = .ok false) ∧
    ((∀ x ∈ q.scopes, q.Favours shared s lists s x) ∧
      ((q.evaluate shared).outcome s).1 = .ok true ∧
      ((q.evaluate lists).outcome s).1 = .ok false) := by
  intro p q lists shared s
  have hp : p.Plain ∧ ∀ x ∈ p.scopes, x = "a" ∨ x = "b" := by
    simp [Plain, mem_scopes, p, atoms, atomsAll, Atom.scopes]
  have hq : q.Plain ∧ ∀ x ∈ q.scopes, x = "a" ∨ x = "b" := by
    simp [Plain, mem_scopes, q, atoms, atomsAll, Atom.scopes]
  have hlists : ∀ x, x = "a" ∨ x = "b" → Context.Grants lists s x [some "READ"] := by
    rintro x (rfl | rfl) <;> exact ⟨_, _, rfl, rfl, rfl, rfl, rfl⟩
  have hshared : ∀ x, x = "a" ∨ x = "b" → Context.Grants shared s x [some "READ"] := by
    rintro x (rfl | rfl) <;> exact ⟨_, _, rfl, rfl, rfl, rfl, rfl⟩
  refine ⟨⟨hp.1, hq.1, rfl, rfl, fun x hx => ?_⟩, ⟨fun x hx ps hps => ?_, ?_⟩,
    fun x hx ps hps => ?_, ?_⟩
  · have hab : x = "a" ∨ x = "b" := (List.mem_append.1 hx).elim (hp.2 x) (hq.2 x)
    exact ⟨.inr ⟨_, hlists x hab⟩, .inr ⟨_, hshared x hab⟩⟩
  · obtain rfl := hps.unique (hlists x (hp.2 x hx))
    exact ⟨_, hshared x (hp.2 x hx), fun _ _ => id, fun _ _ => id⟩
  · constructor <;> rw [evaluate_eq_judge] <;> rfl
  · obtain rfl := hps.unique (hshared x (hq.2 x hx))
    exact ⟨_, hlists x (hq.2 x hx), fun _ _ => id, fun _ _ => id⟩
  · constructor <;> rw [evaluate_eq_judge] <;> rfl

end Predicate

end Clearance
