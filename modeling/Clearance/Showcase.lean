import Clearance.Path.Resolver
import Clearance.Predicate.Machine
import Clearance.Predicate.Scopes
import Clearance.Registry.Assembly

/-!
# A showcase

A small application of the library, told as a text: two scopes with their permissions, a
second module for a scope that is taken, two predicates, and what they say about three
sessions.
-/

namespace Clearance.Showcase

/-- A member, which is also a text, for each of the names. -/
def members (names : List String) : List (String × Value) :=
  names.map fun n => (n, .text n)

/-- What the permissions of users have in common. -/
def users : Family := { identity := 0, name := "UserPermissions", mixin := .text }

/-- What the permissions of teams have in common. -/
def teams : Family := { identity := 1, name := "TeamPermissions", mixin := .text }

def userPermissions : Value :=
  .enumeration users (members ["READ", "WRITE", "DELETE"])

def teamPermissions : Value :=
  .enumeration teams (members ["READ", "MANAGE"])

/-- The grant of a member of the permissions of users. -/
def user (name : String) : Value := .member users name (.text name)

/-- The grant of a member of the permissions of teams. -/
def team (name : String) : Value := .member teams name (.text name)

/-- The context with the grants for each scope. -/
def session (grants : List (String × Value)) : Value :=
  .mapping .table (grants.map fun (scope, v) => (.text scope, v))

/-- Who is there, and what they are granted. -/
def sessions : List (String × Value) :=
  [("alice", session
      [("user", .container .list [user "READ", user "WRITE"]),
        ("team", .container .list [team "MANAGE"])]),
    ("bob", session [("user", .container .list [user "READ"]), ("team", .container .list [])]),
    ("eve", session [("user", .null)])]

/-- The text with blanks after it, at least as long as `width`. -/
def padded (width : Nat) (s : String) : String :=
  s ++ String.ofList (List.replicate (width - s.length) ' ')

/-- What the two predicates say about a session. -/
def line (canEdit readOnly : Predicate) (name : String) (context : Value) : Run String := do
  let edit ← canEdit.evaluate context
  let only ← readOnly.evaluate context
  return "  " ++ padded 6 name ++ " can_edit=" ++ padded 5 (Value.bool edit).written ++
    " read_only=" ++ (Value.bool only).written

/-- What there is to say when the scope of users is declared a second time. -/
def secondUser (r : Registry) : Run (List String) := do
  let teams ← PermissionDomain.ofValue teamPermissions
  try
    let _ ← Registry.assemble [teams.named "user"] r
    return []
  catch
    | .duplicateScope scope => return ["  [CONFIG] " ++ (Failure.duplicateScope scope).message]
    | e => throw e

/-- The lines of the showcase. -/
def story : Run (List String) := do
  let users ← PermissionDomain.ofValue userPermissions
  let teams ← PermissionDomain.ofValue teamPermissions
  let registry ← Registry.assemble [users.named "user", teams.named "team"] .empty
  let config ← secondUser registry
  let resolver : Resolver := ⟨registry, true⟩
  let canEdit := Predicate.all
    [← resolver.has "user.READ",
      .any [← resolver.has "user.WRITE", ← resolver.has "team.MANAGE"]]
  let readOnly := Predicate.all [← resolver.has "user.READ", ← resolver.lacks "user.WRITE"]
  let lines ← sessions.mapM fun (name, context) => line canEdit readOnly name context
  let scopes := (canEdit.scopes.mergeSort (· ≤ ·)).map Value.text
  return config ++ lines ++
    ["  scopes referenced by can_edit: " ++ (Value.container .list scopes).written]

/-- The showcase as a text; nothing in it fails. -/
def text : String :=
  match (story.outcome {}).1 with
  | .ok lines => String.join (lines.map (· ++ "\n"))
  | .error e => e.message ++ "\n"

end Clearance.Showcase
