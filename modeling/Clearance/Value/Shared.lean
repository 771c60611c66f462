import Clearance.Value.Basic

/-!
# Shared lists

A shared list is known by its number, and its items are kept apart from the values that refer
to it. `Value.fill` puts something in the place of each reference, and `Value.now` puts there
the list as it is, with the lists inside it as they are. A list inside itself stays a
reference.
-/

namespace Clearance.Value

mutual

/-- The value with `f id` in the place of the shared list with the number `id`. -/
def fill (f : Nat → Value) : Value → Value
  | .shared id => f id
  | .container kind items => .container kind (fillItems f items)
  | .mapping kind entries => .mapping kind (fillEntries f entries)
  | .enumeration family members => .enumeration family (fillMembers f members)
  | .member family name value => .member family name (fill f value)
  | v => v

/-- The items with the lists in place. -/
def fillItems (f : Nat → Value) : List Value → List Value
  | [] => []
  | x :: xs => fill f x :: fillItems f xs

/-- The entries with the lists in place. -/
def fillEntries (f : Nat → Value) : List (Value × Value) → List (Value × Value)
  | [] => []
  | (k, v) :: es => (fill f k, fill f v) :: fillEntries f es

/-- The members with the lists in place. -/
def fillMembers (f : Nat → Value) : List (String × Value) → List (String × Value)
  | [] => []
  | (name, v) :: ms => (name, fill f v) :: fillMembers f ms

end

/-- What the reference with the number `id` stands for where the lists `around` are around it,
down to a depth. -/
def listNow (lists : List (List Value)) : (depth : Nat) → (around : List Nat) → Nat → Value
  | 0, _, id => .shared id
  | depth + 1, around, id =>
    match around.contains id, lists[id]? with
    | false, some items => .container .list (fillItems (listNow lists depth (id :: around)) items)
    | _, _ => .shared id

/-- The value with the lists as they are. Every list comes once at most among those around a
reference, so that there are no more of them than lists. -/
def now (lists : List (List Value)) (v : Value) : Value :=
  match lists with
  | [] => v
  | lists => v.fill (listNow lists lists.length [])

/-- Without lists nothing is filled in. -/
@[simp] theorem now_nil (v : Value) : v.now [] = v := rfl

end Clearance.Value
