import Clearance.Declaration.Payload
import Clearance.Distinct
import Clearance.Document.Reader
import Clearance.Path.Basic

/-!
# Reading declarations

A module is declared by a mapping with a `name` and `permissions`, a registry by a mapping
with a list of `modules`, which may be missing, and a context by any mapping of texts to null
or a list of texts. Other fields are passed over. The name of a scope and the permissions of a
module are texts that are not empty and have no separator in them, so that a path can name
each of them; a permission that is repeated counts once, where it is first.

A declaration that has been read before is accepted as it is, without looking at its fields again.

A reading gathers all issues, in the order of the payload. A part is examined for its own
rules only if it has the right form, and of these rules the first one broken is reported.
-/

namespace Clearance

/-- The outcome of reading a part: what it declares, or what is wrong with it. -/
abbrev Checked (α : Type) := Except (List Issue) α

namespace Checked

/-- The issues, if there are some. -/
def issues {α : Type} : Checked α → List Issue
  | .ok _ => []
  | .error es => es

/-- Two parts, with the issues of both. -/
def pair {α β : Type} : Checked α → Checked β → Checked (α × β)
  | .ok a, .ok b => .ok (a, b)
  | x, y => .error (x.issues ++ y.issues)

/-- All parts, with the issues of all. -/
def all {α : Type} : List (Checked α) → Checked (List α)
  | [] => .ok []
  | x :: xs => (pair x (all xs)).map fun (a, as) => a :: as

/-- A part with a single issue. -/
def fault {α : Type} (place : List Step) (f : Fault) : Checked α :=
  .error [⟨place, f⟩]

/-- The result, or the fault at its place. -/
def atPlace {α : Type} (place : List Step) (r : Except Fault α) : Checked α :=
  r.mapError fun f => [⟨place, f⟩]

end Checked

/-- The text, if it may be declared as an identifier. -/
def Role.check (role : Role) (s : String) : Except Fault String :=
  if s = "" then .error (.badIdentifier (.empty role))
  else if Path.separator ∈ s.toList then .error (.badIdentifier (.separated role s))
  else .ok s

/-- The declaration of a context. -/
abbrev ContextDeclaration := List (String × Option (List String))

/-- The context with `grants` for the scope: a scope that is there keeps its place. -/
def ContextDeclaration.bind (scope : String) (grants : Option (List String)) :
    ContextDeclaration → ContextDeclaration
  | [] => [(scope, grants)]
  | (s, g) :: es => if s = scope then (s, grants) :: es else (s, g) :: bind scope grants es

namespace Payload

variable {α : Type} (p : Payload α)

/-- A text. -/
def readText (place : List Step) (x : α) : Run (Checked String) := do
  return Checked.atPlace place (← p.text x)

/-- A list of parts, each at its own place. If the list fails to yield its next part, that is
the only issue. -/
def readList {β : Type} (read : List Step → α → Run (Checked β)) (place : List Step) (x : α) :
    Run (Checked (List β)) := do
  match ← p.visit? x fun i y => read (place ++ [.index i]) y with
  | none => return Checked.fault place .notList
  | some (.complete ys) => return Checked.all ys
  | some (.interrupted i e) => return Checked.fault (place ++ [.index i]) (.interrupted e.told)

/-- A list of texts. -/
def readTexts (place : List Step) (x : α) : Run (Checked (List String)) :=
  p.readList p.readText place x

/-- The name of a module. -/
def readName (place : List Step) (x : α) : Run (Checked String) := do
  return (← p.readText place x) >>= fun s => Checked.atPlace place (Role.scope.check s)

/-- The permissions of a module. -/
def readPermissions (place : List Step) (x : α) : Run (Checked (List String)) := do
  match ← p.readTexts place x with
  | .error es => return .error es
  | .ok [] => return Checked.fault place .tooShort
  | .ok ps =>
    return (Checked.atPlace place (ps.mapM Role.permission.check)).map distinct

/-- The part under a name, which has to be there. -/
def readField {β : Type} (read : List Step → α → Run (Checked β)) (place : List Step) (x : α)
    (name : String) : Run (Checked β) := do
  match ← p.field? x name with
  | none => return Checked.fault (place ++ [.field name]) .missing
  | some y => read (place ++ [.field name]) y

/-- A module that is described by a mapping. -/
def readFields (place : List Step) (x : α) : Run (Checked ModuleDeclaration) := do
  if p.isMapping x then
    let name ← p.readField p.readName place x "name"
    let permissions ← p.readField p.readPermissions place x "permissions"
    return (Checked.pair name permissions).map fun (n, ps) => ⟨n, ps⟩
  else return Checked.fault place (.notRecord .module)

/-- A module. -/
def readModule (place : List Step) (x : α) : Run (Checked ModuleDeclaration) :=
  match p.module? x with
  | some d => return .ok d
  | none => p.readFields place x

/-- The modules of a registry that is described by a mapping. -/
def readModules (x : α) : Run (Checked (List ModuleDeclaration)) := do
  if p.isMapping x then
    match ← p.field? x "modules" with
    | none => return .ok []
    | some y => p.readList p.readModule [.field "modules"] y
  else return Checked.fault [] (.notRecord .registry)

/-- The modules of a registry. -/
def readRegistry (x : α) : Run (Checked (List ModuleDeclaration)) :=
  match p.registry? x with
  | some ds => return .ok ds
  | none => p.readModules x

/-- The grants under a key of a context. -/
def readGrants (place : List Step) (x : α) : Run (Checked (Option (List String))) := do
  if p.isNull x then return .ok none
  else return (← p.readTexts place x).map some

/-- The entries of a context in order. -/
def readEntries : List (Key × α) → Run (List (Checked (String × Option (List String))))
  | [] => return []
  | (k, x) :: es => do
    let key := Checked.atPlace [k.place, .field "[key]"] (← k.text)
    let grants ← p.readGrants [k.place] x
    return Checked.pair key grants :: (← readEntries es)

/-- A context: a scope that is given twice has its first place and its last grants. -/
def readContext (x : α) : Run (Checked ContextDeclaration) := do
  if p.isMapping x then
    let entries ← p.readEntries (← p.entries x)
    return (Checked.all entries).map fun es =>
      es.foldl (fun c e => ContextDeclaration.bind e.1 e.2 c) []
  else return Checked.fault [] .notTable

/-- What the reading declares; it fails with all its issues. -/
def accept {β : Type} (subject : Subject) (read : Run (Checked β)) : Run β := do
  match ← read with
  | .ok b => return b
  | .error es => throw (.rejected ⟨subject, p.form, es⟩)

end Payload

namespace Document

/-- Reads what the text of a document declares. -/
def accept {β : Type} (subject : Subject) (read : Document → Run (Checked β)) (text : String) :
    Run β :=
  Payload.document.accept subject <|
    match ofText? text with
    | none => return Checked.fault [] .malformed
    | some d => read d

end Document

end Clearance
