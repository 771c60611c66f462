import Clearance.Value.Mixin
import Clearance.Value.Naming

/-!
# Enumerations

An enumeration is made of the names that go to members (`Roster.ofNames`). A name whose value
agrees with that of a member before it is another name of that member. A value that cannot
change is compared with those only that cannot change either, since it is looked for among keys;
one that may change is compared with the value of each member in turn. `Value.memberOf` finds a
member by its value in the same way.
-/

namespace Clearance

/-- An enumeration with all names of its members. -/
structure Roster where
  family : Family
  /-- The members by their own names. -/
  members : List (String × Value)
  /-- Each name with the member of that name. -/
  names : List (String × (String × Value))

namespace Roster

/-- The enumeration as a value. -/
def value (r : Roster) : Value :=
  .enumeration r.family r.members

/-- The member with the name. -/
def member? (r : Roster) (name : String) : Option Value :=
  (r.names.lookup name).map fun m => .member r.family m.1 m.2

/-- The first of the members with a value that agrees with `v`. -/
def find (v : Value) (members : List (String × Value)) : Run (Option (String × Value)) :=
  if v.changeable?.isNone then
    return members.find? fun m => m.2.changeable?.isNone && m.2.agrees v
  else Run.find (·.2) v members

/-- The enumeration with one more name. -/
def add (r : Roster) (name : String) (v : Value) : Run Roster := do
  match ← find v (r.names.map (·.2)) with
  | some m => return { r with names := r.names ++ [(name, m)] }
  | none => return { r with
      members := r.members ++ [(name, v)], names := r.names ++ [(name, (name, v))] }

/-- Whether the value is a name that is not a member's own name. -/
def isSecondName (r : Roster) (v : Value) : Bool :=
  r.names.any fun e => v.foundAs? == some e.1 && e.1 ≠ e.2.1

/-- Fails unless the members are in the order of the names, of which second names do not
count. -/
def requireOrder (r : Roster) (names : List Value) : Run Unit :=
  let own := r.members.map fun m => Value.text m.1
  let asked := names.filter fun v => !r.isSecondName v
  if names.isEmpty || Value.agreesList own asked then return
  else throw (.family (.outOfOrder (Value.container .list own).shown
    (Value.container .list asked).shown))

/-- The enumeration of the names with their values. -/
def ofNames (family : Family) (names : List (String × Value)) : Run Roster := do
  let n ← Naming.ofNames family.name names
  let family := { family with substitute := n.substitute.map Value.kindName }
  let r ← n.members.foldlM (fun r (name, v) => do
    Run.callAll (v.mixingCalls family.mixin)
    r.add name (← (v.mixed family.mixin : Except Failure Value))) ⟨family, [], []⟩
  if let some names ← n.ordered? then r.requireOrder names
  return r

end Roster

/-- The member of an enumeration that has the value; a member has itself. -/
def Value.memberOf (family : Family) (members : List (String × Value)) (v : Value) :
    Run Value :=
  match v with
  | .member f name w =>
    if f.identity = family.identity then return v else byValue (.member f name w)
  | v => byValue v
where
  byValue (v : Value) : Run Value := do
    match ← Roster.find v members with
    | some m => return .member family m.1 m.2
    | none =>
      if members.isEmpty then throw (.noMembers family.name)
      else
        match family.substitute with
        | some kind => throw (.notCallable kind)
        | none => Run.refuse v fun shown => .noMember shown family.name

end Clearance
