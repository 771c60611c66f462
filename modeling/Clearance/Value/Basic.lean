import Clearance.Failure

/-!
# Values that callers supply

Grants, permission domains, contexts and payloads come from outside in many forms. `Value` has
a constructor per form, and the kinds of containers and mappings are told apart by
`ContainerKind` and `MappingKind`, since they differ in how they are named and written only.

Some forms need a word. A *one-shot source* (`Value.source`) yields its items once, and a
*shared list* (`Value.shared`) may grow; their state is not in the value, which only names
them, so that several values may draw from one source (`Value.relay`). A *watched* mapping
reports each look at it (`Value.reports`). An *enumeration* is a list of named members of one
`Family`; with a `Mixin` a member is also a text or an integer. A declaration that has been read
is a value, too, and its fields may have been changed since. Some values agree with nothing but
themselves, however much another one looks the same: the floating-point number that is none,
objects of a caller's own types, and families. These carry an `Identity`, and so do watched
mappings.

A caller's own type may have rules of its own. What it does to write one of its values is a
`Script`, which may fail. A text of such a type is usually a text like any other, but it may be a
`Peculiar` one, which decides by itself what it is equal to and as what it is found.

The questions asked of a value are whether it is a text (`text?`, `content?`), a mapping
(`mapping?`) or something to iterate over (`Iteration.of?`), to which text it is equal
(`equalsText`) and as what it is found among keys and in sets (`foundAs?`), whether it counts as
true (`truthy`), and how its form is called (`kindName`).
-/

namespace Clearance

/-- A container of items; `set` and `frozenSet` hold each item once. -/
inductive ContainerKind where
  | list
  | tuple
  | set
  | frozenSet
  deriving DecidableEq, Repr

/-- What tells a value from others that look the same. -/
abbrev Identity := Nat

/-- A mapping: a table, a read-only view of one, or one that reports the looks at it. -/
inductive MappingKind where
  | table
  | view
  | watched (identity : Identity)
  deriving DecidableEq, Repr

/-- What the members of an enumeration are besides members. -/
inductive Mixin where
  | none
  | text
  | integer
  deriving DecidableEq, Repr

/-- A text of a caller's own type that has rules of its own. -/
structure Peculiar where
  identity : Identity
  kind : String
  text : String
  /-- Whether it is equal to the text. -/
  equals : String → Bool
  /-- The text that has the same number, by which both are looked for among keys and in sets. What
  has no number can be in neither. -/
  likeness : Option String

/-- The text that finds it among keys and in sets, if one does. -/
def Peculiar.foundAs? (t : Peculiar) : Option String :=
  t.likeness.filter t.equals

/-- The text that something is written as. -/
inductive Spelling where
  | plain (s : String)
  | peculiar (t : Peculiar)

/-- The characters of the text. -/
def Spelling.content : Spelling → String
  | .plain s => s
  | .peculiar t => t.text

/-- What a caller's own type does to write one of its values. -/
structure Script where
  /-- The routines of the caller's that are called, in order. -/
  calls : List String := []
  result : Except Failure Spelling

namespace Script

/-- Nothing is called, and the text is this. -/
def plain (s : String) : Script :=
  { result := .ok (.plain s) }

/-- The text in writing, which is empty if there is none. -/
def content (f : Script) : String :=
  match f.result with
  | .ok t => t.content
  | .error _ => ""

/-- Why there is no text, if there is none. -/
def failure? (f : Script) : Option Failure :=
  match f.result with
  | .ok _ => none
  | .error e => some e

end Script

/-- What the members of an enumeration have in common. -/
structure Family where
  identity : Identity
  name : String
  mixin : Mixin
  /-- The kind of the value that stands where a rule for values without a member is looked for,
  if there is one; it is no rule. -/
  substitute : Option String := none
  /-- How a member is written, if not by its name. -/
  script : Option Script := none
  /-- Whether the members have no number by which they could be looked for among keys. -/
  numberless : Bool := false

/-- The declaration of a module. -/
structure ModuleDeclaration where
  name : String
  permissions : List String
  deriving DecidableEq, Repr

inductive Value where
  | null
  | bool (b : Bool)
  | int (i : Int)
  | float (x : Float)
  /-- The floating-point number that is none. -/
  | nan (identity : Identity)
  | text (s : String)
  /-- A text of a caller's own text type. -/
  | ownText (s : String)
  /-- A text of a caller's own text type that has rules of its own. -/
  | peculiar (t : Peculiar)
  | octets (bytes : List UInt8)
  /-- Octets that may change. -/
  | buffer (bytes : List UInt8)
  | container (kind : ContainerKind) (items : List Value)
  | mapping (kind : MappingKind) (entries : List (Value × Value))
  /-- The integers from `start` to `stop - 1`. -/
  | range (start stop : Int)
  /-- The one-shot source with this number. -/
  | source (id : Nat)
  /-- A one-shot source that hands on what the source with the number `id` yields. -/
  | relay (identity : Identity) (id : Nat)
  /-- The list with this number, which may grow. -/
  | shared (id : Nat)
  | enumeration (family : Family) (members : List (String × Value))
  | member (family : Family) (name : String) (value : Value)
  /-- A declaration of a module that has been read, with the fields that it has now. -/
  | declaration (d : ModuleDeclaration)
  /-- A declaration of a registry that has been read, with the modules that it has now. -/
  | declarations (ds : List ModuleDeclaration)
  /-- An object of some other type, which is written as `script` has it, has `items` if it can be
  iterated over, and has something of the kind `changing` in it if that may change. -/
  | object (identity : Identity) (kind : String) (script : Script) (items : Option (List Value))
    (changing : Option String)
  deriving Inhabited

namespace Value

/-- The text that the value is and counts as, if it is one. A peculiar text counts as none. -/
def text? : Value → Option String
  | .text s | .ownText s | .member { mixin := .text, .. } _ (.text s) => some s
  | _ => none

/-- The characters of the value, if it is a text of whatever kind. -/
def content? : Value → Option String
  | .peculiar t => some t.text
  | v => v.text?

/-- The text that finds the value among keys and in sets, if one does. -/
def foundAs? : Value → Option String
  | .peculiar t => t.foundAs?
  | v => v.text?

/-- Whether the value is equal to the text. -/
def equalsText (s : String) : Value → Bool
  | .peculiar t => t.equals s
  | v => v.text? == some s

/-- The kind and the entries of a mapping. -/
def mapping? : Value → Option (MappingKind × List (Value × Value))
  | .mapping kind entries => some (kind, entries)
  | _ => none

/-- Whether looks at the value are reported by it. -/
def reports : Value → Bool
  | .mapping (.watched _) _ => true
  | _ => false

/-- What the form of the value is called. -/
def kindName : Value → String
  | .null => "NoneType"
  | .bool _ => "bool"
  | .int _ => "int"
  | .float _ | .nan _ => "float"
  | .text _ => "str"
  | .ownText _ => "StrSub"
  | .peculiar t => t.kind
  | .octets _ => "bytes"
  | .buffer _ => "bytearray"
  | .container .list _ => "list"
  | .container .tuple _ => "tuple"
  | .container .set _ => "set"
  | .container .frozenSet _ => "frozenset"
  | .mapping .table _ => "dict"
  | .mapping .view _ => "mappingproxy"
  | .mapping (.watched _) _ => "Probe"
  | .range _ _ => "range"
  | .source _ | .relay .. => "generator"
  | .shared _ => "list"
  | .enumeration .. => "EnumType"
  | .member family .. => family.name
  | .declaration _ => "ModuleSchema"
  | .declarations _ => "RegistrySchema"
  | .object _ kind .. => kind

/-- Empty things, zeros and what is absent count as false; a member counts as what it is
besides a member, and as true if it is nothing else. An object is empty if it could have items
and has none. What is known by its number only counts as true. -/
def truthy : Value → Bool
  | .null => false
  | .bool b => b
  | .int i => i != 0
  | .float x => x != 0.0
  | .text s | .ownText s => s != ""
  | .peculiar t => t.text != ""
  | .octets bs | .buffer bs => !bs.isEmpty
  | .container _ items => !items.isEmpty
  | .mapping _ entries => !entries.isEmpty
  | .range start stop => start < stop
  | .member { mixin := .none, .. } _ _ => true
  | .member _ _ value => value.truthy
  | .object _ _ _ (some items) _ => !items.isEmpty
  | .nan _ | .source _ | .relay .. | .shared _ | .enumeration .. | .declaration _
  | .declarations _ | .object _ _ _ none _ => true

/-- The integers from `start` to `stop - 1`. -/
def integers (start stop : Int) : List Value :=
  (List.range (stop - start).toNat).map fun (i : Nat) => .int (start + i)

/-- The characters of a text, as texts. -/
def characters (s : String) : List Value :=
  s.toList.map fun c => .text c.toString

/-- A field of a declaration: its name, and what is in it. -/
def fieldPair (name : String) (v : Value) : Value :=
  .container .tuple [.text name, v]

end Value

/-- How a value is iterated over. -/
inductive Iteration where
  /-- The items are these, every time. -/
  | items (xs : List Value)
  /-- The items are those that the one-shot source with this number still has. -/
  | source (id : Nat)
  /-- The items are those that the shared list with this number has by now. -/
  | shared (id : Nat)

/-- How `v` is iterated over, if it can be. A mapping yields its keys, an enumeration its
members, octets their numbers, a declaration its fields with their names. -/
def Iteration.of? (v : Value) : Option Iteration :=
  match v with
  | .octets bs | .buffer bs => some (.items (bs.map fun b => .int b.toNat))
  | .container _ xs => some (.items xs)
  | .mapping _ entries => some (.items (entries.map (·.1)))
  | .range start stop => some (.items (Value.integers start stop))
  | .source id | .relay _ id => some (.source id)
  | .shared id => some (.shared id)
  | .enumeration family members => some (.items (members.map fun m => .member family m.1 m.2))
  | .declaration d =>
    some (.items [.fieldPair "name" (.text d.name),
      .fieldPair "permissions" (.container .list (d.permissions.map .text))])
  | .declarations ds =>
    some (.items [.fieldPair "modules" (.container .list (ds.map .declaration))])
  | .object _ _ _ xs _ => xs.map .items
  | v => v.content?.map fun s => .items (Value.characters s)

end Clearance
