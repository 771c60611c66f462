import Clearance.Declaration.Issue
import Clearance.Document.Basic
import Clearance.Grant.Context
import Clearance.Text.Utf8
import Clearance.Value.Demand

/-!
# Payloads

A declaration is read from a value that the caller holds or from a document, and the rules
are the same but for what counts as a text, a list or a mapping. `Payload` has the questions
that the rules ask; `Payload.value` and `Payload.document` answer them for the two forms.

A value is a text also if it is octets that encode one, or a member of an enumeration, which
counts as the text that its value is written as, if it can be written. It is a list if it can be
iterated over and is no text, no octets and no mapping. Going through its items draws from a
one-shot source, and what is done to an item is done before the next one is drawn. A value may
also be a declaration that has been read before, which nothing in a document is.
-/

namespace Clearance

/-- A key of a mapping: its place in reports, and its text. -/
structure Key where
  place : Step
  text : Run (Except Fault String)

/-- The questions that are asked of the parts of a payload. -/
structure Payload (α : Type) : Type 1 where
  form : Form
  isNull : α → Bool
  /-- The text that the part is, or the fault that it is none. -/
  text : α → Run (Except Fault String)
  /-- Goes through the items, if the part is a list. -/
  visit? : {β : Type} → α → (Nat → α → Run β) → Run (Option (Visit β))
  /-- The declaration of a module that the part is by itself, if it is one. -/
  module? : α → Option ModuleDeclaration
  /-- The modules of the declaration of a registry that the part is by itself, if it is one. -/
  registry? : α → Option (List ModuleDeclaration)
  /-- Whether the part is a mapping. -/
  isMapping : α → Bool
  /-- What the mapping has under the name. -/
  field? : α → String → Run (Option α)
  /-- The entries of the mapping. -/
  entries : α → Run (List (Key × α))

namespace Value

/-- The text that the value is taken for where a text is asked for. -/
def declaredText (v : Value) : Run (Except Fault String) :=
  match v.content?, v with
  | some s, _ => return .ok s
  | none, .octets bs | none, .buffer bs =>
    return (Text.Utf8.decode bs).mapError fun _ => .notUnicode
  | none, .member _ _ w => do return .ok (← Run.spell (← Run.current w)).content
  | none, _ => return .error .notText

/-- Goes through the items of the value, if it is taken for a list. -/
def declaredVisit? {β : Type} (v : Value) (f : Nat → Value → Run β) :
    Run (Option (Visit β)) :=
  match v with
  | .container .. | .range .. | .source _ | .relay .. | .shared _ | .enumeration ..
  | .declaration _ | .declarations _ | .object _ _ _ (some _) _ => do
    return some (← Run.visit v f)
  | _ => return none

/-- The declaration of a module that the value is. -/
def declaredModule? : Value → Option ModuleDeclaration
  | .declaration d => some d
  | _ => none

/-- The modules of the declaration of a registry that the value is. -/
def declaredRegistry? : Value → Option (List ModuleDeclaration)
  | .declarations ds => some ds
  | _ => none

/-- The written form of the value, also of one that cannot be written. -/
def told (v : Value) : String :=
  if v.unshown?.isSome then "<unprintable " ++ v.kindName ++ " object>" else v.shown

/-- The place of a key in reports: its text or its number, or else its written form. -/
def place (v : Value) : Step :=
  match v.content?, v with
  | some s, _ => .field s
  | none, .bool b => .index b.toNat
  | none, .int i | none, .member { mixin := .integer, .. } _ (.int i) =>
    if -0x8000000000000000 ≤ i && i < 0x8000000000000000 then .index i else .field v.told
  | none, v => .field v.told

/-- What the mapping has under a name. -/
def declaredField? (v : Value) (name : String) : Run (Option Value) :=
  match v.mapping? with
  | some (_, entries) => do
    Run.record (.look v (.fetched name))
    return Context.bound? name entries
  | none => return none

/-- The entries of the mapping, whose keys are gone through before what is under them is
looked at. -/
def declaredEntries (v : Value) : Run (List (Key × Value)) :=
  match v.mapping? with
  | some (_, entries) => do
    Run.record (.look v .traversed)
    entries.forM fun e => Run.record (.look v (.entry e.1))
    return entries.map fun (k, w) => (⟨k.place, k.declaredText⟩, w)
  | none => return []

end Value

/-- A payload that the caller holds. -/
def Payload.value : Payload Value where
  form := .value
  isNull
    | .null => true
    | _ => false
  text := Value.declaredText
  visit? := Value.declaredVisit?
  module? := Value.declaredModule?
  registry? := Value.declaredRegistry?
  isMapping v := v.mapping?.isSome
  field? := Value.declaredField?
  entries := Value.declaredEntries

/-- A payload in a document. Of the fields of an object with one name the last one counts,
except among the entries, which are all there. -/
def Payload.document : Payload Document where
  form := .document
  isNull
    | .null => true
    | _ => false
  text
    | .text s => return .ok s
    | _ => return .error .notText
  visit? d f :=
    match d with
    | .list items => do return some (.complete (← Run.inTurn f 0 items))
    | _ => return none
  module? _ := none
  registry? _ := none
  isMapping
    | .object _ => true
    | _ => false
  field? d name :=
    match d with
    | .object fields => return fields.reverse.lookup name
    | _ => return none
  entries
    | .object fields => return fields.map fun (name, d) => (⟨.field name, return .ok name⟩, d)
    | _ => return []

end Clearance
