import Clearance.Text.Blank
import Clearance.Value.Comparison
import Clearance.Value.Demand

/-!
# The names of an enumeration

An enumeration is put together from names with values, which are taken one after the other
(`Naming.take`). Most names go to members, and none of these is given twice. Passed over are
names with two low lines on both sides, names that are private to the family, the names of
routines, and what is to be left out. A name with a single low line on both sides is an
instruction: which names to leave out, in which order the members have to be, and what stands
in for a rule on values that no member has. Other names of this kind are kept for later use, and
the empty name and `mro` are forbidden.
-/

namespace Clearance

/-- The words of a text that has commas or blanks between them. -/
def Text.words (s : String) : List String :=
  let isGap (c : Char) : Bool := isBlank c || c = ',' || ('\x1c' ≤ c && c ≤ '\x1f')
  ((s.toList.splitBy fun c d => isGap c == isGap d).filter (·.all fun c => !isGap c)).map
    String.ofList

/-- Whether the value is a routine, which belongs to a family and is no member of it. -/
def Value.isRoutine : Value → Bool
  | .object _ kind .. => kind = "function" || kind = "method"
  | _ => false

/-- What the names taken so far come to. -/
structure Naming where
  /-- The names of members, each with the value that it is given. -/
  members : List (String × Value) := []
  /-- The names of what is no member but might be one, the last one first. -/
  others : List (String × Value) := []
  /-- What is to be left out. -/
  omitted : List Value := []
  /-- The names of the members in the order that they have to be in. -/
  order : Option Value := none
  /-- What stands in for a rule on values that no member has. -/
  substitute : Option Value := none

namespace Naming

/-- Whether the characters start and end with exactly `n` low lines, with others between. -/
def isUnderlined (n : Nat) (cs : List Char) : Bool :=
  let line := List.replicate n '_'
  let inner := (cs.drop n).take (cs.length - 2 * n)
  2 * n < cs.length && line.isPrefixOf cs && line.isSuffixOf cs &&
    inner.head? != some '_' && inner.getLast? != some '_'

/-- Whether the name is private to the family. -/
def isPrivate (family name : String) : Bool :=
  let line := ("_" ++ family ++ "__").toList
  let cs := name.toList
  line.isPrefixOf cs && line.length < cs.length && !(List.replicate 2 '_').isSuffixOf cs

/-- The instructions that change nothing here. -/
def idle : List String :=
  ["_generate_next_value_", "_numeric_repr_", "_iter_member_", "_iter_member_by_value_",
    "_iter_member_by_def_"]

/-- Whether the name is among the values. -/
def isNamed (name : String) (vs : List Value) : Bool :=
  vs.any (·.foundAs? == some name)

/-- The naming with the names in the value left out. None of these is a member's yet. -/
def leaveOut (n : Naming) (v : Value) : Run Naming := do
  let omitted ← match v.content? with
    | some s => pure ((Text.words s).map Value.text)
    | none => Run.iterate v
  omitted.forM Run.requireFixed
  match (n.members.map (·.1)).filter (isNamed · omitted) with
  | [] => return { n with omitted }
  | taken => throw (.family (.taken taken))

/-- The naming after an instruction. -/
def instruct (n : Naming) (name : String) (v : Value) : Run Naming :=
  match name with
  | "_ignore_" => n.leaveOut v
  | "_order_" => return { n with order := some v }
  | "_missing_" => return { n with substitute := some v }
  | name => if idle.contains name then return n else throw (.family (.reserved name))

/-- The naming after a name that may be a member's. -/
def offer (n : Naming) (name : String) (v : Value) : Run Naming :=
  match n.members.lookup name with
  | some w => Run.refuse w fun shown => .family (.repeated name shown)
  | none =>
    if isNamed name n.omitted || v.isRoutine then
      return { n with others := (name, v) :: n.others }
    else
      match n.others.lookup name with
      | some w => Run.refuse w fun shown => .family (.repeated name shown)
      | none => return { n with members := n.members ++ [(name, v)] }

/-- The naming after one more name. -/
def take (family : String) (n : Naming) (name : String) (v : Value) : Run Naming :=
  if isPrivate family name then return n
  else if isUnderlined 1 name.toList then n.instruct name v
  else if isUnderlined 2 name.toList then
    return if name = "__order__" then { n with order := some v } else n
  else n.offer name v

/-- The naming without the instructions that are to be left out. -/
def trimmed (n : Naming) : Naming :=
  let kept (name : String) (v : Option Value) : Option Value :=
    if isNamed name n.omitted then none else v
  { n with order := kept "_order_" n.order, substitute := kept "_missing_" n.substitute }

/-- The naming that the names with their values come to in the family. -/
def ofNames (family : String) (names : List (String × Value)) : Run Naming := do
  let n : Naming ← names.foldlM (fun n (name, v) => take family n name v) {}
  let forbidden := (n.members.map (·.1)).filter fun name => name = "" || name = "mro"
  if forbidden.isEmpty then return n.trimmed else throw (.family (.forbidden forbidden))

/-- The names in the order that is asked for, if one is; they are written with commas or blanks
between them or held by the value. -/
def ordered? (n : Naming) : Run (Option (List Value)) :=
  match n.order with
  | none => return none
  | some v =>
    match v.content? with
    | some s => return some ((Text.words s).map Value.text)
    | none => do if v.truthy then return some (← Run.iterateFixed v) else return none

end Naming

end Clearance
