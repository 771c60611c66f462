import Clearance.Declaration.Meaning
import Clearance.Storage.Tree

/-!
# Loading a registry

A registry may be declared by a document in a file. The file is read as UTF-8, with every kind
of line end as a line feed. A file that cannot be found or opened is a failure of the
configuration, which names its source; octets that are no text are a failure of their own.
-/

namespace Clearance

namespace Storage

/-- How the place of a file is given. -/
inductive Location where
  /-- As a text, which is also what its source is called. -/
  | text (s : String)
  /-- As a path, whose source is called by its normal form. -/
  | path (s : String)
  deriving DecidableEq, Repr

/-- The text that the location was made from. -/
def Location.given : Location → String
  | .text s | .path s => s

/-- What the source at the location is called. -/
def Location.source : Location → String
  | .text s => s
  | .path s => (Path.ofText s).written

/-- The text of the file at the location. -/
def Tree.readText (t : Tree) (location : Location) : Run String :=
  if '\x00' ∈ location.given.toList then throw .nullInPath
  else
    let path := Path.ofText location.given
    match t.read path with
    | .error fault =>
      throw (.configuration location.source (fault.message path.written) (some fault))
    | .ok octets =>
      match Text.Utf8.decode octets with
      | .error refusal => throw (.undecodable (.ofUtf8 refusal))
      | .ok s => return String.ofList (Text.normalNewlines s.toList)

end Storage

/-- The registry that the file at the location declares. -/
def Registry.load (t : Storage.Tree) (location : Storage.Location) : Run Registry := do
  Registry.ofText (← t.readText location)

end Clearance
