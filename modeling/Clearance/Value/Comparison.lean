import Clearance.Run
import Clearance.Value.Agreement

/-!
# Comparing values

Whether two values are equal follows from what they hold (`Value.equals`); how it is found out
shows in the trace, since a watched mapping reports when its entries are read. `Value.looks`
are these looks. Two lists or two tuples are compared item by item up to the first difference,
lists of different lengths not at all. Of two mappings the entries are read first, if they are
watched, and then what is under each key is compared in the order of the keys. A part that is
the same watched mapping on both sides is not looked into.
-/

namespace Clearance

namespace Value

mutual

/-- How deep the parts of the value go. -/
def height : Value → Nat
  | .container _ items => heightItems items + 1
  | .mapping _ entries => heightEntries entries + 1
  | _ => 1

/-- The height of the highest item. -/
def heightItems : List Value → Nat
  | [] => 0
  | x :: xs => max (height x) (heightItems xs)

/-- The height of the highest value of an entry. -/
def heightEntries : List (Value × Value) → Nat
  | [] => 0
  | (_, v) :: es => max (height v) (heightEntries es)

end

/-- Whether a part is the same watched mapping as another one. -/
def isSameWatched : Value → Value → Bool
  | .mapping (.watched i) _, .mapping (.watched j) _ => i == j
  | _, _ => false

/-- The looks of reading the entries of the mapping. -/
def entryLooks (v : Value) (entries : List (Value × Value)) : List Event :=
  if v.reports then
    .look v .traversed :: entries.map fun e => .look v (.entry e.1)
  else []

/-- Whether in a comparison the second mapping is asked first: a table leaves the comparison to
what is no table, and a view to what is none. -/
def yields : MappingKind → MappingKind → Bool
  | .watched _, _ | _, .table => false
  | _, _ => true

/-- The looks of going through pairs of parts, where `inner` are the looks of a pair, up to the
first two that differ. -/
def looksInTurn (inner : Value → Value → List Event) : List (Value × Value) → List Event
  | [] => []
  | (x, y) :: pairs =>
    (if isSameWatched x y then [] else inner x y) ++
      if agrees x y then looksInTurn inner pairs else []

/-- The values under the keys of `es`, in order, each with that under the same key in `fs`, up to
the first key that is not there. -/
def sharedParts (fs : List (Value × Value)) : List (Value × Value) → List (Value × Value)
  | [] => []
  | (k, x) :: es =>
    match fs.find? fun f => f.1.agrees k with
    | some (_, y) => (x, y) :: sharedParts fs es
    | none => []

/-- The looks of comparing the first value with the second, down to a depth. -/
def looksWithin : (depth : Nat) → Value → Value → List Event
  | 0, _, _ => []
  | depth + 1, v, w =>
    match v, w with
    | .container .list xs, .container .list ys =>
      if xs.length = ys.length then looksInTurn (looksWithin depth) (xs.zip ys) else []
    | .container .tuple xs, .container .tuple ys =>
      looksInTurn (looksWithin depth) (xs.zip ys)
    | .mapping k es, .mapping k' fs =>
      let parts (es fs : List (Value × Value)) : List Event :=
        if es.length = fs.length then looksInTurn (looksWithin depth) (sharedParts fs es) else []
      if yields k k' then entryLooks w fs ++ entryLooks v es ++ parts fs es
      else entryLooks v es ++ entryLooks w fs ++ parts es fs
    | _, _ => []

/-- The looks of comparing the first value with the second. -/
def looks (v w : Value) : List Event :=
  looksWithin v.height v w

end Value

namespace Run

/-- Whether the values are equal, each on its own. -/
def equal (v w : Value) : Run Bool := do
  (v.looks w).forM record
  return v.equals w

/-- The first item of which `value` agrees with `v`, each compared in turn. -/
def find {α : Type} (value : α → Value) (v : Value) : List α → Run (Option α)
  | [] => return none
  | x :: xs => do
    ((value x).looks v).forM record
    if (value x).agrees v then return some x else find value v xs

/-- Whether the value is one of the items, each compared in turn. -/
def isAmong (v : Value) : List Value → Run Bool
  | [] => return false
  | x :: xs => do
    unless Value.isSameWatched x v do (x.looks v).forM record
    if x.agrees v then return true else isAmong v xs

end Run

end Clearance
