import Std.Data.HashSet

/-!
# Lists without repetition

`distinct` keeps of items that are the same the first one. In a short list every item is
compared with those that are kept (`List.eraseDups`); through a long one it goes once, with a
set of what it has met. Both ways lead to the same list (`distinct_eq_eraseDups`), in which no
item comes twice (`nodup_distinct`) and none is missing (`mem_distinct`).
-/

namespace Clearance

section

variable {α : Type} [BEq α] [LawfulBEq α]

/-- Of what `List.eraseDups` keeps no two are the same. -/
theorem nodup_eraseDups (xs : List α) : xs.eraseDups.Nodup := by
  induction h : xs.length using Nat.strongRecOn generalizing xs with
  | _ n ih =>
    cases xs with
    | nil => exact List.nodup_nil
    | cons x xs =>
      rw [List.eraseDups_cons, List.nodup_cons, List.mem_eraseDups]
      refine ⟨fun hx => ?_, ih _ (h ▸ Nat.lt_succ_of_le (List.length_filter_le ..)) _ rfl⟩
      have := (List.mem_filter.1 hx).2
      rw [beq_self_eq_true] at this
      contradiction

variable [Hashable α]

/-- After the items in `kept`, the last one first, those that are not in `met`, each once. -/
def distinctBeyond (met : Std.HashSet α) (kept : List α) : List α → List α
  | [] => kept.reverse
  | x :: xs =>
    if met.contains x then distinctBeyond met kept xs
    else distinctBeyond (met.insert x) (x :: kept) xs

/-- Lists up to this length are short. -/
def shortLength : Nat := 32

/-- The items in the order of their first occurrences, each once. -/
def distinct (xs : List α) : List α :=
  if xs.length ≤ shortLength then xs.eraseDups else distinctBeyond ∅ [] xs

theorem distinctBeyond_eq (met : Std.HashSet α) (kept xs : List α) :
    distinctBeyond met kept xs =
      kept.reverse ++ (xs.filter fun x => !met.contains x).eraseDups := by
  induction xs generalizing met kept with
  | nil => simp [distinctBeyond]
  | cons x xs ih =>
    rw [distinctBeyond]
    split
    · next h => rw [ih, List.filter_cons_of_neg (by simp [h])]
    · next h =>
      rw [ih, List.filter_cons_of_pos (by simp [h]), List.eraseDups_cons, List.filter_filter]
      simp only [List.reverse_cons, List.append_assoc, List.singleton_append]
      congr 4
      funext y
      rw [Std.HashSet.contains_insert, Bool.not_or, Bool.beq_comm]

theorem distinct_eq_eraseDups (xs : List α) : distinct xs = xs.eraseDups := by
  unfold distinct
  split
  · rfl
  · rw [distinctBeyond_eq, List.reverse_nil, List.nil_append]
    exact congrArg _ (List.filter_eq_self.2 fun x _ => by simp)

/-- Nothing is lost. -/
@[simp] theorem mem_distinct {x : α} {xs : List α} : x ∈ distinct xs ↔ x ∈ xs := by
  rw [distinct_eq_eraseDups, List.mem_eraseDups]

/-- No two of the items are the same. -/
theorem nodup_distinct (xs : List α) : (distinct xs).Nodup :=
  distinct_eq_eraseDups xs ▸ nodup_eraseDups xs

/-- Where no two items are the same, all of them are kept. -/
theorem distinct_of_nodup {xs : List α} (h : xs.Nodup) : distinct xs = xs := by
  rw [distinct_eq_eraseDups]
  induction xs with
  | nil => rfl
  | cons x xs ih =>
    obtain ⟨hx, hxs⟩ := List.nodup_cons.1 h
    have hne : xs.filter (fun y => !y == x) = xs := by
      refine List.filter_eq_self.2 fun y hy => ?_
      rw [Bool.not_eq_true', beq_eq_false_iff_ne]
      exact ne_of_mem_of_not_mem hy hx
    rw [List.eraseDups_cons, hne, ih hxs]

/-- Items that are told apart by what they are mapped to are kept there just when they are kept
here. -/
theorem distinct_map {β : Type} [BEq β] [LawfulBEq β] [Hashable β] {f : α → β}
    (hf : ∀ x y, f x = f y → x = y) (xs : List α) :
    distinct (xs.map f) = (distinct xs).map f := by
  rw [distinct_eq_eraseDups, distinct_eq_eraseDups]
  induction h : xs.length using Nat.strongRecOn generalizing xs with
  | _ n ih =>
    cases xs with
    | nil => rfl
    | cons x xs =>
      have hfilter : (xs.map f).filter (fun y => !y == f x) =
          (xs.filter fun y => !y == x).map f := by
        rw [List.filter_map]
        congr 2
        funext y
        have hy : (f y == f x) = (y == x) := by
          rw [Bool.eq_iff_iff, beq_iff_eq, beq_iff_eq]
          exact ⟨hf y x, congrArg f⟩
        exact congrArg not hy
      rw [List.map_cons, List.eraseDups_cons, List.eraseDups_cons, List.map_cons, hfilter,
        ih _ (h ▸ Nat.lt_succ_of_le (List.length_filter_le ..)) _ rfl]

end

end Clearance
