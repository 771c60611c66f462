import Clearance.Storage.Fault
import Clearance.Storage.Path

/-!
# Trees of files

A `Tree` holds directories and files by the names that lead to them from its root, which is
also where relative paths start. Nothing is known outside of it, except that the directories
above the root exist. `Tree.read` follows a path name by name: each name has to be in a
directory and no longer than a name may be, `..` leads to the directory above, and in the end
there has to be a file.
-/

namespace Clearance.Storage

structure Tree where
  /-- The directories below the root. -/
  directories : List (List String)
  files : List (List String × List UInt8)

namespace Tree

/-- The tree with nothing in it. -/
def empty : Tree := ⟨[], []⟩

/-- All beginnings of the list but the empty one. -/
def beginnings : List String → List (List String)
  | [] => []
  | n :: ns => [n] :: (beginnings ns).map (n :: ·)

/-- The tree with a directory at the names, and with those on the way to it. -/
def withDirectory (t : Tree) (names : List String) : Tree :=
  { t with directories := t.directories ++ beginnings names }

/-- The tree with a file at the names, in place of one that is there. -/
def withFile (t : Tree) (names : List String) (octets : List UInt8) : Tree :=
  { t with files := (names, octets) :: t.files.filter (·.1 ≠ names) }

/-- How many octets a name has at most. -/
def nameLimit : Nat := 255

/-- How many octets a path has at most. -/
def pathLimit : Nat := 4095

/-- Where one is on the way along a path. -/
inductive Position where
  /-- In the directory with these names. -/
  | directory (names : List String)
  /-- At the end of a file. -/
  | file (octets : List UInt8)
  /-- In a directory so many levels above the root, of which the root is the only thing
  known. -/
  | above (levels : Nat)

/-- The position after one more name. -/
def enter (t : Tree) (position : Position) (name : String) : Except Fault Position :=
  match position with
  | .file _ => .error .notDirectory
  | .directory names =>
    if name = ".." then
      .ok (if names.isEmpty then .above 0 else .directory names.dropLast)
    else if nameLimit < name.utf8ByteSize then .error .nameTooLong
    else
      match t.files.lookup (names ++ [name]) with
      | some octets => .ok (.file octets)
      | none =>
        if t.directories.contains (names ++ [name]) then .ok (.directory (names ++ [name]))
        else .error .notFound
  | .above levels =>
    if name = ".." then .ok (.above (levels + 1))
    else if nameLimit < name.utf8ByteSize then .error .nameTooLong
    else .error .notFound

/-- The octets of the file at the path. -/
def read (t : Tree) (path : Path) : Except Fault (List UInt8) :=
  if pathLimit < path.written.utf8ByteSize then .error .nameTooLong
  else
    let start := if path.root = 0 then Position.directory [] else .above 0
    match path.names.foldlM t.enter start with
    | .error e => .error e
    | .ok (.file octets) => .ok octets
    | .ok _ => .error .isDirectory

end Tree

end Clearance.Storage
