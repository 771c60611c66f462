import Clearance.Grant.Context
import Clearance.Value.Agreement

/-!
# Whether a text is in a value

`Run.holds` is the question whether a text is in a value of any form. It is in a mapping if it
is a key, in a text if its characters are in it in a row, and in whatever else can be iterated
over if it is one of the items. A one-shot source is drawn from until the text is found, and
what is left stays there. Nothing is found among octets or in an enumeration: asking for a text
there is a failure, as it is with values that hold nothing.
-/

namespace Clearance

/-- Whether the first characters are in the second ones in a row. -/
def Text.occurs (cs : List Char) : List Char → Bool
  | [] => cs.isEmpty
  | d :: ds => cs.isPrefixOf (d :: ds) || occurs cs ds

namespace Run

/-- Draws from the source until the text is found. -/
def search (s : String) (id : Nat) (failure : Option Failure) : List Value → Run Bool
  | [] => do
    setSource id .spent
    match failure with
    | none => return false
    | some e => throw e
  | x :: xs => do
    setSource id ⟨xs, failure⟩
    record .produced
    if x.equalsText s then return true else search s id failure xs

/-- Whether the text is in the value. -/
def holds (v : Value) (s : String) : Run Bool :=
  match v with
  | .mapping .. => Context.tests v s
  | .octets _ | .buffer _ => throw .textAmongOctets
  | .enumeration .. => throw (.textAmongMembers v.kindName)
  | v =>
    match v.content?, Iteration.of? v with
    | some t, _ => return Text.occurs s.toList t.toList
    | none, some (.items xs) => return xs.any (·.equalsText s)
    | none, some (.shared id) => return (← listed id).any (·.equalsText s)
    | none, some (.source id) => do
      let ⟨xs, failure⟩ ← source id
      search s id failure xs
    | none, none => throw (.notContainer v.kindName)

end Run

end Clearance
