/-!
# Paths in storage

A path is a sequence of names with slashes between them, and starts at the root if it starts
with a slash. Empty names and the name `.` count for nothing; `..` stays, since what it means
depends on the directory it is in. Two slashes at the start are kept as such, and any other
number of them is one.
-/

namespace Clearance.Storage

/-- The names between the slashes. -/
def fields : List Char → List (List Char)
  | [] => [[]]
  | c :: cs =>
    if c = '/' then [] :: fields cs
    else
      match fields cs with
      | [] => [[c]]
      | f :: fs => (c :: f) :: fs

structure Path where
  /-- How many slashes there are at the start: none, one or two. -/
  root : Nat
  names : List String
  deriving DecidableEq, Repr

namespace Path

/-- The path that the text is. -/
def ofText (s : String) : Path :=
  let slashes := (s.toList.takeWhile (· = '/')).length
  { root := if slashes ≤ 2 then slashes else 1
    names := ((fields s.toList).map String.ofList).filter fun n => n ≠ "" && n ≠ "." }

/-- The path in writing; the empty path is `.`. -/
def written (p : Path) : String :=
  if p.root = 0 && p.names.isEmpty then "."
  else String.ofList (List.replicate p.root '/') ++ "/".intercalate p.names

end Path

end Clearance.Storage
