import Clearance.Proofs.Entries
import Clearance.Proofs.Permission
import Clearance.Proofs.Restructuring

/-!
# A tree and its outline

The outline of a tree that is built out of leaves and groups (`Predicate.Built`) is enough to make
the tree again (`Predicate.ofOutline`): a group from its operator and the outlines of its children,
a leaf from its operator and its path, since the path alone says what a resolver takes for scope and
permission, whichever registry it knows and whether it is strict or lenient. What is made again runs
as the tree does and refers to the same scopes; lost is only how the paths were worded, which no
evaluation looks at. So two trees with one outline cannot be told apart by evaluating them
(`Predicate.call_eq_of_outline_eq`).
-/

namespace Clearance

/-! ## Making a tree again -/

/-- The connective of the operator. -/
def Connective.ofOperator (operator : String) : Connective :=
  if operator = Connective.operator .allOf then .allOf else .anyOf

/-- The polarity of the operator. -/
def Polarity.ofOperator (operator : String) : Polarity :=
  if operator = Polarity.operator .has then .has else .lacks

@[simp] theorem Connective.ofOperator_operator (op : Connective) : ofOperator op.operator = op := by
  cases op <;> rfl

@[simp] theorem Polarity.ofOperator_operator (polarity : Polarity) :
    ofOperator polarity.operator = polarity := by
  cases polarity <;> rfl

namespace Predicate

mutual

/-- The tree of leaves and groups that has the outline. What is known by a name only is none of
them, and an empty group stands in its place. -/
def ofOutline : Outline → Predicate
  | .group operator parts => .group (.ofOperator operator) (ofOutlines parts)
  | .path operator text => .ofPath (.ofOperator operator) text (Path.split text)
  | .named _ _ => .any []

def ofOutlines : List Outline → List Predicate
  | [] => []
  | o :: os => ofOutline o :: ofOutlines os

end

/-- The tree is built out of leaves and groups, each leaf by a resolver of its own. -/
inductive Built : Predicate → Prop
  | leaf {r : Resolver} {polarity : Polarity} {text : Wording} {s : Session} {p : Predicate}
      (h : ((r.predicate polarity text).outcome s).1 = .ok p) : Built p
  | group {op : Connective} {ps : List Predicate} (h : ∀ p ∈ ps, Built p) : Built (.group op ps)

variable {c : Value} {op : Connective} {p q : Predicate} {ps : List Predicate} {x : String}

/-- The outline of a leaf tells its polarity and its path, and nothing else counts. -/
theorem ofOutline_shape_ofPath (polarity : Polarity) (text : Wording) (path : Option Path) :
    ofOutline (ofPath polarity text path).shape =
      ofPath polarity text.text (Path.split text.text) := by
  show ofPath (.ofOperator polarity.operator) _ _ = _
  rw [Polarity.ofOperator_operator]

/-- Groups run alike if their children do. -/
theorem judgeAll_ofOutlines (h : ∀ p ∈ ps, ∀ ix, judge c (ofOutline p.shape) ix = judge c p ix)
    (ix : Option GrantIndex) :
    judgeAll c op (ofOutlines (shapeAll ps)) ix = judgeAll c op ps ix := by
  induction ps generalizing ix with
  | nil => rfl
  | cons p ps ih =>
    rw [shapeAll, ofOutlines, judgeAll, judgeAll, h p List.mem_cons_self]
    simp only [ih fun q hq => h q (List.mem_cons_of_mem p hq)]

/-- What is made again runs as the tree does. -/
theorem judge_ofOutline (h : p.Built) (ix : Option GrantIndex) :
    judge c (ofOutline p.shape) ix = judge c p ix := by
  induction h generalizing ix with
  | leaf h =>
    rw [Resolver.eq_ofPath_of_ok h, ofOutline_shape_ofPath]
    rfl
  | group _ ih =>
    rw [shape, ofOutline, Connective.ofOperator_operator, judge, judge]
    exact judgeAll_ofOutlines ih ix

theorem mentionsAll_ofOutlines (h : ∀ p ∈ ps, (ofOutline p.shape).mentions = p.mentions) :
    mentionsAll (ofOutlines (shapeAll ps)) = mentionsAll ps := by
  induction ps with
  | nil => rfl
  | cons p ps ih =>
    rw [shapeAll, ofOutlines, mentionsAll, mentionsAll, h p List.mem_cons_self,
      ih fun q hq => h q (List.mem_cons_of_mem p hq)]

/-- What is made again refers to the same scopes. -/
theorem mentions_ofOutline (h : p.Built) : (ofOutline p.shape).mentions = p.mentions := by
  induction h with
  | leaf h =>
    rw [Resolver.eq_ofPath_of_ok h, ofOutline_shape_ofPath]
    rfl
  | group _ ih =>
    rw [shape, ofOutline, mentions, mentions]
    exact mentionsAll_ofOutlines ih

theorem Built.plain (h : p.Built) : p.Plain := by
  induction h with
  | leaf h =>
    rw [Resolver.eq_ofPath_of_ok h]
    exact fun a ha => ⟨_, List.mem_singleton.1 ha⟩
  | group _ ih =>
    intro a ha
    obtain ⟨p, hp, ha⟩ := mem_atomsAll.1 ha
    exact ih p hp a ha

theorem mem_scopes_iff_mem_mentions : x ∈ p.scopes ↔ x ∈ p.mentions :=
  p.mem_scopes.trans p.mem_mentions.symm

/-- Take two trees that are built out of leaves and groups, with whatever registries and in whatever
mode. If they have one outline, no context tells them apart, be it a mapping or not: called in the
same session they give the same answer or fail alike, and leave the same session. They refer to
the same scopes. -/
theorem call_eq_of_outline_eq (p q : Predicate) (hp : p.Built) (hq : q.Built)
    (h : p.outline = q.outline) :
    (∀ (c : Value) (s : Session), ∃ (answer : Except Failure Bool) (t : Session),
      (p.call c).outcome s = (answer.map .bool, t) ∧
        (q.call c).outcome s = (answer.map .bool, t)) ∧
    ∀ x, x ∈ p.scopes ↔ x ∈ q.scopes := by
  have hshape : p.shape = q.shape := by rw [← outline_eq_shape, h, outline_eq_shape]
  constructor
  · intro c s
    have hjudge : judge c p none = judge c q none :=
      calc judge c p none
        _ = judge c (ofOutline p.shape) none := (judge_ofOutline hp none).symm
        _ = judge c (ofOutline q.shape) none := by rw [hshape]
        _ = judge c q none := judge_ofOutline hq none
    have hevaluate : p.evaluate c = q.evaluate c := by
      rw [evaluate_eq_judge, evaluate_eq_judge, hjudge]
    refine ⟨((q.evaluate c).outcome s).1, ((q.evaluate c).outcome s).2, ?_, ?_⟩
    · rw [hp.plain.call_eq_evaluate, hevaluate, Run.outcome_map]
    · rw [hq.plain.call_eq_evaluate, Run.outcome_map]
  · intro x
    have hmentions : p.mentions = q.mentions :=
      calc p.mentions
        _ = (ofOutline p.shape).mentions := (mentions_ofOutline hp).symm
        _ = (ofOutline q.shape).mentions := by rw [hshape]
        _ = q.mentions := mentions_ofOutline hq
    rw [mem_scopes_iff_mem_mentions, mem_scopes_iff_mem_mentions, hmentions]

/-- One tree has a leaf from a strict resolver whose registry declares the permission, the other one
a leaf on the same path, in a form of its own, from a lenient resolver that knows no scope. Both
have a leaf that names nothing, and read a one-shot source. -/
theorem call_eq_of_outline_eq_registries :
    let declared : Registry :=
      ⟨[("user", .ofIdentifiers "user" [some "READ"])], List.nodup_singleton _⟩
    let path : Wording := ⟨"user.READ", "Right.READ", "<Right.READ: 'user.READ'>"⟩
    let strictLeaf : Predicate := .ofPath .has "user.READ" (some ⟨"user", "READ"⟩)
    let lenientLeaf : Predicate := .ofPath .has path (some ⟨"user", "READ"⟩)
    let nothing : Predicate := .ofPath .lacks "user" none
    let p : Predicate := .any [nothing, .all [strictLeaf, .all []]]
    let q : Predicate := .any [nothing, .all [lenientLeaf, .all []]]
    let c : Value := .mapping (.watched 0) [(.text "user", .source 0)]
    let s : Session := { sources := [⟨[.text "READ"], none⟩] }
    ((Resolver.has ⟨declared, true⟩ "user.READ").outcome {}).1 = .ok strictLeaf ∧
      ((Resolver.has ⟨.empty, false⟩ path).outcome {}).1 = .ok lenientLeaf ∧
      p.outline = q.outline ∧ (p.call c).outcome s = (q.call c).outcome s ∧
      ((p.call c).outcome s).1 = .ok (.bool true) := by
  intro declared path strictLeaf lenientLeaf nothing p q c s
  have hstrict : ((Resolver.has ⟨declared, true⟩ "user.READ").outcome {}).1 = .ok strictLeaf := rfl
  have hsplit : Path.split "user.READ" = some ⟨"user", "READ"⟩ := rfl
  have hlenient : ((Resolver.has ⟨.empty, false⟩ path).outcome {}).1 = .ok lenientLeaf :=
    Resolver.lenient_of_split .empty .has {} hsplit
  have hnothing : nothing.Built := @Built.leaf ⟨.empty, false⟩ .lacks "user" {} nothing rfl
  have hbuilt : ∀ leaf : Predicate, leaf.Built → (any [nothing, .all [leaf, .all []]]).Built := by
    intro leaf hleaf
    refine .group (List.forall_mem_cons.2 ⟨hnothing, List.forall_mem_singleton.2 (.group ?_)⟩)
    exact List.forall_mem_cons.2 ⟨hleaf, List.forall_mem_singleton.2 (.group nofun)⟩
  have houtline : p.outline = q.outline := by
    rw [outline_eq_shape, outline_eq_shape]
    rfl
  obtain ⟨hcall, -⟩ := call_eq_of_outline_eq p q
    (hbuilt _ (@Built.leaf ⟨declared, true⟩ .has "user.READ" {} _ hstrict))
    (hbuilt _ (@Built.leaf ⟨.empty, false⟩ .has path {} _ hlenient)) houtline
  obtain ⟨answer, t, hp, hq⟩ := hcall c s
  refine ⟨hstrict, hlenient, houtline, hp.trans hq.symm, ?_⟩
  rw [show p = .group .anyOf [nothing, .all [strictLeaf, .all []]] from rfl, call_group_eq_judge]
  rfl

end Predicate

end Clearance
