/-!
# Permission paths

A path names a permission of a scope: the name of the scope, the separator, the permission.
The first separator of a text divides it, so the name of a scope that a path can name has no
separator in it, while a permission may have some. `Path.split` refuses a text without
separator or with nothing on either side of the first one.
-/

namespace Clearance

/-- The two parts of a path. -/
structure Path where
  scope : String
  permission : String
  deriving DecidableEq, Repr

namespace Path

/-- What stands between the scope and the permission. -/
def separator : Char := '.'

/-- The path in writing. -/
def written (p : Path) : String :=
  p.scope ++ "." ++ p.permission

/-- What stands before and what after the first separator. -/
def divide : List Char → Option (List Char × List Char)
  | [] => none
  | c :: cs =>
    if c = separator then some ([], cs) else (divide cs).map fun (a, b) => (c :: a, b)

/-- The path that the text is, if it is one. -/
def split (s : String) : Option Path :=
  match divide s.toList with
  | some (c :: scope, d :: permission) =>
    some ⟨String.ofList (c :: scope), String.ofList (d :: permission)⟩
  | _ => none

end Path

end Clearance
