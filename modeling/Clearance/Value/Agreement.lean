import Clearance.Decimal.Shortest
import Clearance.Value.Basic

/-!
# Agreement of values

`Value.agrees` is the equality by which values are keys of a mapping, items of a container and
members of an enumeration. Truth values, integers and floats agree as numbers, texts and
octets by what they hold; a member agrees as what it is besides a member, and otherwise with
itself only, and so do all values that carry an identity, but for a peculiar text, which agrees
besides with the texts that it is equal to. A list never agrees with a tuple, but all kinds of
sets and all kinds of mappings agree among each other, whatever the order of their items.

The floating-point number that is none agrees with itself, so that it is found again where it
was put; compared on its own it equals nothing (`Value.equals`).

What may change can be no key and no item of a set. `Value.changeable?` is the kind of what
may change in a value: the value itself, an item of a tuple, or a part of an object. A value of a
caller's own type may have no number by which it could be looked for, which comes to the same.
-/

namespace Clearance

/-- A number as far as agreement goes. -/
inductive Quantity where
  | int (i : Int)
  | float (x : Float)

/-- Equality of numbers, exact between an integer and a float. -/
def Quantity.agrees : Quantity → Quantity → Bool
  | .int i, .int j => i == j
  | .float x, .float y => x == y
  | .int i, .float x | .float x, .int i => (Decimal.Real.ofFloat x).isInt i

namespace Value

/-- The number that the value is, if it is one. -/
def quantity? : Value → Option Quantity
  | .bool b => some (.int b.toNat)
  | .int i | .member { mixin := .integer, .. } _ (.int i) => some (.int i)
  | .float x => some (.float x)
  | _ => none

/-- The octets that the value is, if it is some. -/
def octets? : Value → Option (List UInt8)
  | .octets bs | .buffer bs => some bs
  | _ => none

/-- Agreement of what has no parts. -/
def agreesPlain (v w : Value) : Bool :=
  match v.quantity?, w.quantity? with
  | some m, some n => m.agrees n
  | _, _ =>
    match v.text?, w.text? with
    | some s, some t => s == t
    | _, _ =>
      match v.octets?, w.octets? with
      | some a, some b => a == b
      | _, _ =>
        match v, w with
        | .null, .null => true
        | .nan i, .nan j => i == j
        | .source i, .source j | .shared i, .shared j | .relay i _, .relay j _ => i == j
        | .declaration d, .declaration d' => d == d'
        | .declarations ds, .declarations ds' => ds == ds'
        | .peculiar t, .peculiar t' => t.identity == t'.identity
        | .peculiar t, w | w, .peculiar t => w.text?.any t.equals
        | .range a b, .range c d =>
          (b - a).toNat == (d - c).toNat && (decide (b ≤ a) || a == c)
        | .enumeration f _, .enumeration g _ => f.identity == g.identity
        | .member { identity := i, mixin := .none, .. } m _,
            .member { identity := j, mixin := .none, .. } n _ => i == j && m == n
        | .object i .., .object j .. => i == j
        | _, _ => false

/-- Whether a container is a set. -/
def isSet : ContainerKind → Bool
  | .set | .frozenSet => true
  | _ => false

mutual

/-- Whether two values count as the same. -/
def agrees : Value → Value → Bool
  | .container .list xs, .container .list ys => agreesList xs ys
  | .container .tuple xs, .container .tuple ys => agreesList xs ys
  | .container k xs, .container k' ys =>
    isSet k && isSet k' && xs.length == ys.length && within xs ys
  | .mapping _ es, .mapping _ fs => es.length == fs.length && entriesWithin es fs
  | v, w => agreesPlain v w
termination_by structural v => v

/-- Agreement item by item. -/
def agreesList : List Value → List Value → Bool
  | [], [] => true
  | x :: xs, y :: ys => agrees x y && agreesList xs ys
  | _, _ => false

/-- Whether each item of the first list agrees with some item of the second. -/
def within : List Value → List Value → Bool
  | [], _ => true
  | x :: xs, ys => ys.any (agrees x) && within xs ys

/-- Whether each entry of the first list agrees with some entry of the second. -/
def entriesWithin : List (Value × Value) → List (Value × Value) → Bool
  | [], _ => true
  | (k, v) :: es, fs => fs.any (fun f => agrees k f.1 && agrees v f.2) && entriesWithin es fs

end

/-- Whether the values are equal, each on its own. -/
def equals : Value → Value → Bool
  | .nan _, _ => false
  | v, w => v.agrees w

/-- Whether the value itself may change, or has no number. -/
def isChangeable : Value → Bool
  | .container .list _ | .container .set _ | .shared _ | .mapping .. | .buffer _ => true
  | .declaration _ | .declarations _ => true
  | .member family .. => family.numberless
  | .peculiar t => t.likeness.isNone
  | _ => false

mutual

/-- The kind of what may change in the value, if something may. -/
def changeable? : Value → Option String
  | .container .tuple items => changeableIn? items
  | .object _ _ _ _ changing => changing
  | v => if v.isChangeable then some v.kindName else none

/-- The kind of what may change in the items, if something may. -/
def changeableIn? : List Value → Option String
  | [] => none
  | x :: xs => (changeable? x).or (changeableIn? xs)

end

/-- Nothing may change in the items just when nothing may in each of them. -/
theorem changeableIn?_eq_none {xs : List Value} :
    changeableIn? xs = none ↔ ∀ x ∈ xs, changeable? x = none := by
  induction xs with
  | nil => exact ⟨fun _ _ h => (by cases h), fun _ => rfl⟩
  | cons x xs ih =>
    rw [changeableIn?, Option.or_eq_none_iff, ih, List.forall_mem_cons]

/-- `entries` with `k` bound to `v`: a key that is there keeps its place, and the key that was
written first stays. -/
def bind (k v : Value) : List (Value × Value) → List (Value × Value)
  | [] => [(k, v)]
  | (k', v') :: es => if k'.agrees k then (k', v) :: es else (k', v') :: bind k v es

/-- Of items that agree the first only. -/
def firsts (xs : List Value) : List Value :=
  xs.foldl (fun ys x => if ys.any (·.agrees x) then ys else ys ++ [x]) []

/-- Only items are among the first ones. -/
theorem firsts_subset (xs : List Value) : firsts xs ⊆ xs := by
  have hfold : ∀ ys : List Value,
      xs.foldl (fun ys x => if ys.any (·.agrees x) then ys else ys ++ [x]) ys ⊆ ys ++ xs := by
    induction xs with
    | nil => exact fun ys => List.subset_append_left ys []
    | cons x xs ih =>
      intro ys
      refine List.Subset.trans (ih _) ?_
      dsimp only
      split
      · exact List.append_subset.2 ⟨List.subset_append_left _ _,
          List.Subset.trans (List.subset_cons_self x xs) (List.subset_append_right _ _)⟩
      · rw [List.append_assoc]
        exact List.Subset.refl _
  exact hfold []

end Value

end Clearance
