import Clearance.Predicate.Export
import Clearance.Proofs.Ends

/-!
# The entries of an outline

An entry refers to other entries by their numbers, and most of them are filled after it. What
they come to is known in the end only, so that filling is described from there: whatever is
listed in an entry in the course of it stands in the end for the outlines of the children that
were left (`Outline.Completes`), in the entry under way as in those that wait, and all other
entries stay as they are (`Predicate.fill_completes`). Hence the outline that is put together
from the entries is the one that the tree defines (`Predicate.outline_eq_shape`).
-/

namespace Clearance

namespace Outline

/-- The outline that the part stands for. -/
def Part.read (entries : Array Entry) : Part → Outline
  | .outline o => o
  | .entry id => Outline.read entries id

/-- In the end the entry lists, after the parts that it has, one part for each of the outlines. -/
def Completes (entries final : Array Entry) (id : Nat) (os : List Outline) : Prop :=
  ∀ e, entries[id]? = some e → ∃ parts : List Part,
    final[id]? = some { e with parts := e.parts ++ parts } ∧
      parts.map (Part.read final) = os ∧ ∀ later, .entry later ∈ parts → id < later

variable {entries entries' final : Array Entry} {id other : Nat} {e : Entry} {part : Part}
  {o : Outline} {os : List Outline}

/-- An entry that refers to later ones only is read part by part. -/
theorem read_eq (he : entries[id]? = some e)
    (hlater : ∀ later, .entry later ∈ e.parts.toList → id < later) :
    read entries id = .group e.operator (e.parts.toList.map (Part.read entries)) := by
  rw [read]
  split
  · next e' he' =>
    obtain rfl : e = e' := Option.some.inj (he.symm.trans he')
    congr 1
    refine List.map_congr_left fun part hpart => ?_
    cases part with
    | outline o => rfl
    | entry later => exact if_pos (hlater later hpart)
  · next he' =>
    rw [he] at he'
    cases he'

theorem getElem?_append_self (he : entries[id]? = some e) :
    (append entries id part)[id]? = some { e with parts := e.parts.push part } := by
  rw [append, Array.getElem?_modify, if_pos rfl, he, Option.map_some]

theorem getElem?_append_of_ne (h : id ≠ other) :
    (append entries id part)[other]? = entries[other]? := by
  rw [append, Array.getElem?_modify, if_neg h]

@[simp] theorem size_append : (append entries id part).size = entries.size :=
  Array.size_modify

theorem getElem?_push_append (h : other < entries.size) :
    ((append entries id part).push e)[other]? = (append entries id part)[other]? := by
  rw [Array.getElem?_push, if_neg (by simpa using Nat.ne_of_lt h)]

theorem getElem?_push_append_size :
    ((append entries id part).push e)[entries.size]? = some e := by
  rw [Array.getElem?_push, if_pos size_append.symm]

/-- An entry that is done has nothing listed any more. -/
theorem Completes.nil (h : final[id]? = entries[id]?) : Completes entries final id [] := by
  intro e he
  refine ⟨[], ?_, rfl, fun _ h => absurd h List.not_mem_nil⟩
  rw [h, he]
  simp

theorem Completes.congr (h : Completes entries' final id os)
    (heq : entries'[id]? = entries[id]?) : Completes entries final id os :=
  fun e he => h e (heq.trans he)

/-- What is listed first stands for the first outline. -/
theorem Completes.cons (h : Completes (append entries id part) final id os)
    (ho : part.read final = o) (hlater : ∀ later, part = .entry later → id < later) :
    Completes entries final id (o :: os) := by
  intro e he
  obtain ⟨parts, hfinal, hparts, hids⟩ := h _ (getElem?_append_self he)
  refine ⟨part :: parts, ?_, by rw [List.map_cons, ho, hparts], fun later hmem => ?_⟩
  · rw [hfinal]
    simp
  · exact (List.mem_cons.1 hmem).elim (fun h => hlater later h.symm) (hids later)

/-- An entry that starts empty is read in the end as a group of what is listed in it. -/
theorem Completes.read_eq {operator : String} (h : Completes entries final id os)
    (he : entries[id]? = some { operator }) : read final id = .group operator os := by
  obtain ⟨parts, hfinal, rfl, hids⟩ := h _ he
  rw [Outline.read_eq hfinal (by simpa using hids)]
  simp

end Outline

open Outline

namespace Predicate

/-- Each of the groups that wait has an entry of its own. -/
structure Queued (entries : Array Entry) (waiting : List Waiting) : Prop where
  nodup : (waiting.map Waiting.id).Nodup
  lt : ∀ w ∈ waiting, w.id < entries.size

variable {entries : Array Entry} {waiting : List Waiting} {w : Waiting} {id : Nat}
  {op : Connective} {ps qs : List Predicate}

theorem Queued.ne (h : Queued entries (⟨ps, id⟩ :: waiting)) (hw : w ∈ waiting) : id ≠ w.id := by
  intro he
  exact (List.nodup_cons.1 h.nodup).1 (List.mem_map.2 ⟨w, hw, he.symm⟩)

/-- A group that comes to wait gets the next entry. -/
theorem Queued.push (h : Queued entries (⟨ps, id⟩ :: waiting)) (qs rest : List Predicate)
    (e : Entry) : Queued (entries.push e) (⟨rest, id⟩ :: ⟨qs, entries.size⟩ :: waiting) where
  nodup := by
    have hnew : entries.size ∉ (⟨ps, id⟩ :: waiting).map Waiting.id := by
      intro hmem
      obtain ⟨w, hw, he⟩ := List.mem_map.1 hmem
      exact Nat.lt_irrefl _ (he ▸ h.lt w hw)
    have hnodup := h.nodup
    simp only [List.map_cons, List.mem_cons, List.nodup_cons, not_or] at hnew hnodup ⊢
    exact ⟨⟨Ne.symm hnew.1, hnodup.1⟩, hnew.2, hnodup.2⟩
  lt w hw := by
    have hlt := h.lt
    simp only [List.mem_cons, forall_eq_or_imp, Array.size_push] at hlt hw ⊢
    rcases hw with rfl | rfl | hw
    · exact Nat.lt_succ_of_lt hlt.1
    · exact Nat.lt_succ_self _
    · exact Nat.lt_succ_of_lt (hlt.2 w hw)

theorem Queued.append (h : Queued entries (⟨ps, id⟩ :: waiting)) (part : Part)
    (rest : List Predicate) :
    Queued (append entries id part) (⟨rest, id⟩ :: waiting) where
  nodup := h.nodup
  lt w hw := by
    have hlt := h.lt
    simp only [List.mem_cons, forall_eq_or_imp, size_append] at hlt hw ⊢
    rcases hw with rfl | hw
    · exact hlt.1
    · exact hlt.2 w hw

/-- Filling lists in the entry of each group that waits, and in the one under way, what stands for
its children in the end, and leaves all other entries as they are. -/
theorem fill_completes (h : Queued entries (⟨ps, id⟩ :: waiting)) :
    (∀ w ∈ (⟨ps, id⟩ : Waiting) :: waiting,
      Completes entries (fill ps id waiting entries) w.id (shapeAll w.children)) ∧
    ∀ other < entries.size, (∀ w ∈ (⟨ps, id⟩ : Waiting) :: waiting, w.id ≠ other) →
      (fill ps id waiting entries)[other]? = entries[other]? := by
  -- along the turns, each of which is undone: what comes after it completes the entries in the end
  fun_induction fill ps id waiting entries with
  | case1 id entries =>
    refine ⟨fun w hw => ?_, fun _ _ _ => rfl⟩
    obtain rfl := List.mem_singleton.1 hw
    exact .nil rfl
  | case2 id entries w ws ih =>
    have hws : Queued entries (w :: ws) :=
      ⟨(List.nodup_cons.1 h.nodup).2, fun v hv => h.lt v (List.mem_cons_of_mem _ hv)⟩
    obtain ⟨hcompletes, hothers⟩ := ih hws
    refine ⟨List.forall_mem_cons.2 ⟨?_, hcompletes⟩, fun other hlt hne => ?_⟩
    · exact .nil (hothers id (h.lt _ List.mem_cons_self) fun v hv => (h.ne hv).symm)
    · exact hothers other hlt fun v hv => hne v (List.mem_cons_of_mem _ hv)
  | case3 id entries a ps ws ih =>
    obtain ⟨hcompletes, hothers⟩ := ih (h.append _ ps)
    obtain ⟨hself, hws⟩ := List.forall_mem_cons.1 hcompletes
    refine ⟨List.forall_mem_cons.2 ⟨hself.cons rfl nofun, fun v hv => ?_⟩, fun other hlt hne => ?_⟩
    · exact (hws v hv).congr (getElem?_append_of_ne (h.ne hv))
    · obtain ⟨hid, hne⟩ := List.forall_mem_cons.1 hne
      rw [hothers other (by simpa using hlt) (List.forall_mem_cons.2 ⟨hid, hne⟩)]
      exact getElem?_append_of_ne hid
  | case4 id entries op qs ps ws ih =>
    have hqueued := (h.append (.entry entries.size) ps).push qs ps ⟨op.operator, #[]⟩
    rw [size_append] at hqueued
    obtain ⟨hcompletes, hothers⟩ := ih hqueued
    obtain ⟨hself, hnew, hws⟩ := by simpa only [List.forall_mem_cons] using hcompletes
    have hid : id < entries.size := h.lt _ List.mem_cons_self
    -- the entry of the child is read as its outline, and those before it have their numbers still
    have hchild := hnew.read_eq (getElem?_push_append_size (e := ⟨op.operator, #[]⟩))
    have hold : ∀ other < entries.size, id ≠ other →
        ((append entries id (.entry entries.size)).push ⟨op.operator, #[]⟩)[other]? =
          entries[other]? :=
      fun other hlt hne => (getElem?_push_append hlt).trans (getElem?_append_of_ne hne)
    refine ⟨List.forall_mem_cons.2 ⟨?_, fun v hv => ?_⟩, fun other hlt hne => ?_⟩
    · refine (hself.congr (getElem?_push_append hid)).cons hchild fun later hlater => ?_
      cases hlater
      exact hid
    · exact (hws v hv).congr (hold v.id (h.lt v (List.mem_cons_of_mem _ hv)) (h.ne hv))
    · obtain ⟨hne, hnes⟩ := List.forall_mem_cons.1 hne
      rw [hothers other (by simpa using Nat.lt_succ_of_lt hlt)]
      · exact hold other hlt hne
      · exact List.forall_mem_cons.2 ⟨hne, List.forall_mem_cons.2 ⟨Nat.ne_of_gt hlt, hnes⟩⟩

/-- The outline is the one that the tree defines. -/
theorem outline_eq_shape (p : Predicate) : p.outline = p.shape := by
  cases p with
  | atom a => rfl
  | group op ps =>
    have hqueued : Queued #[{ operator := op.operator }] [⟨ps, 0⟩] := by
      refine ⟨List.pairwise_singleton _ 0, fun w hw => ?_⟩
      obtain rfl := List.mem_singleton.1 hw
      exact Nat.zero_lt_one
    exact ((fill_completes hqueued).1 _ List.mem_cons_self).read_eq rfl

end Predicate

end Clearance
