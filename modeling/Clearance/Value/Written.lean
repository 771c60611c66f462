import Clearance.Decimal.Shortest
import Clearance.Text.Wording
import Clearance.Value.Basic

/-!
# Written values

The text of a value: `Value.written` for a value on its own, `Value.shown` for a value inside
another one. The two differ on texts, which are quoted inside, on members of enumerations,
which show their value inside, on declarations, and on views, which are written on their own as
what they are views of. A container lists its items between its brackets; those of a list known
by its number are left out.

Not every value can be written. An integer must not have too many digits, and what a caller's
own type does to write its values may fail. `Value.unshown?` is why there is no text of a value
inside another one, if there is none, and `Value.calls` are the routines of the caller's that are
called on the way. `Value.spelled` is what becomes of a value on its own: a member of an
enumeration may be written as a peculiar text.
-/

namespace Clearance.Value

/-- The items of a container between its brackets. A tuple of one item has a comma, and no set
is written with brackets alone, since those are the empty mapping. -/
def bracketed (kind : ContainerKind) (items : List String) : String :=
  let inner := ", ".intercalate items
  match kind, items with
  | .list, _ => "[" ++ inner ++ "]"
  | .tuple, [x] => "(" ++ x ++ ",)"
  | .tuple, _ => "(" ++ inner ++ ")"
  | .set, [] => "set()"
  | .set, _ => "\x7b" ++ inner ++ "\x7d"
  | .frozenSet, [] => "frozenset()"
  | .frozenSet, _ => "frozenset(\x7b" ++ inner ++ "\x7d)"

/-- The entries of a mapping between its brackets. -/
def braced (kind : MappingKind) (entries : List String) : String :=
  let inner := "\x7b" ++ ", ".intercalate entries ++ "\x7d"
  match kind with
  | .table => inner
  | .view => "mappingproxy(" ++ inner ++ ")"
  | .watched _ => "Probe(" ++ inner ++ ")"

/-- The fields of the declaration of a module. -/
def moduleFields (between : String) (d : ModuleDeclaration) : String :=
  "name=" ++ Text.quoted d.name ++ between ++ "permissions=" ++
    bracketed .list (d.permissions.map Text.quoted)

/-- The field of the declaration of a registry. -/
def registryFields (ds : List ModuleDeclaration) : String :=
  "modules=" ++ bracketed .list
    (ds.map fun d => "ModuleSchema(" ++ moduleFields ", " d ++ ")")

mutual

/-- The text of the value inside another one. -/
def shown : Value → String
  | .null => "None"
  | .bool b => if b then "True" else "False"
  | .int i => toString i
  | .float x => Decimal.plain.written x
  | .nan _ => Decimal.plain.nan
  | .text s | .ownText s => Text.quoted s
  | .peculiar t => Text.quoted t.text
  | .octets bs => Text.quotedOctets bs
  | .buffer bs => "bytearray(" ++ Text.quotedBuffer bs ++ ")"
  | .container kind items => bracketed kind (shownItems items)
  | .mapping kind entries => braced kind (shownEntries entries)
  | .range start stop => "range(" ++ toString start ++ ", " ++ toString stop ++ ")"
  | .source _ | .relay .. => "<generator>"
  | .shared _ => "[...]"
  | .enumeration family _ => "<enum " ++ Text.quoted family.name ++ ">"
  | .member family name value =>
    "<" ++ family.name ++ "." ++ name ++ ": " ++ shown value ++ ">"
  | .declaration d => "ModuleSchema(" ++ moduleFields ", " d ++ ")"
  | .declarations ds => "RegistrySchema(" ++ registryFields ds ++ ")"
  | .object _ _ script _ _ => script.content

/-- The texts of the items. -/
def shownItems : List Value → List String
  | [] => []
  | x :: xs => shown x :: shownItems xs

/-- The texts of the entries. -/
def shownEntries : List (Value × Value) → List String
  | [] => []
  | (k, v) :: es => (shown k ++ ": " ++ shown v) :: shownEntries es

end

/-- The text of the value on its own. -/
def written : Value → String
  | .text s | .ownText s => s
  | .peculiar t => t.text
  | .member family name _ =>
    match family.script with
    | some script => script.content
    | none => family.name ++ "." ++ name
  | .mapping .view entries => braced .table (shownEntries entries)
  | .declaration d => moduleFields " " d
  | .declarations ds => registryFields ds
  | v => v.shown

/-- The text that the value is, with its form, if it is one. -/
def wording? (v : Value) : Option Wording :=
  v.content?.map fun s => ⟨s, v.written, v.shown⟩

/-! ## What cannot be written -/

/-- The least number that is too long to be written, which is ten to the power of 4300. -/
def tooLong : Nat :=
  ((Nat.pow 10 43).pow 10).pow 10

/-- Why the integer cannot be written, if it cannot. -/
def unshownInt? (i : Int) : Option Failure :=
  if tooLong ≤ i.natAbs then some (.number .tooLongToWrite) else none

mutual

/-- Why there is no text of the value inside another one, if there is none. -/
def unshown? : Value → Option Failure
  | .int i => unshownInt? i
  | .range start stop => (unshownInt? start).or (unshownInt? stop)
  | .container _ items => unshownIn? items
  | .mapping _ entries => unshownAmong? entries
  | .member _ _ value => unshown? value
  | .object _ _ script _ _ => script.failure?
  | _ => none

/-- Why the items cannot all be written, by the first one that cannot. -/
def unshownIn? : List Value → Option Failure
  | [] => none
  | x :: xs => (unshown? x).or (unshownIn? xs)

/-- Why the entries cannot all be written. -/
def unshownAmong? : List (Value × Value) → Option Failure
  | [] => none
  | (k, v) :: es => ((unshown? k).or (unshown? v)).or (unshownAmong? es)

end

mutual

/-- The routines of the caller's that are called to write the value inside another one. -/
def calls : Value → List String
  | .container _ items => callsIn items
  | .mapping _ entries => callsAmong entries
  | .member _ _ value => calls value
  | .object _ _ script _ _ => script.calls
  | _ => []

/-- The routines that are called to write the items, up to one that cannot be written. -/
def callsIn : List Value → List String
  | [] => []
  | x :: xs => calls x ++ if (unshown? x).isSome then [] else callsIn xs

/-- The routines that are called to write the entries. -/
def callsAmong : List (Value × Value) → List String
  | [] => []
  | (k, v) :: es =>
    calls k ++ if (unshown? k).isSome then [] else
      calls v ++ if (unshown? v).isSome then [] else callsAmong es

end

/-- The text that a routine of the caller's writes by giving the value. A text without a number is
a peculiar one, which is found nowhere. -/
def spelling : Value → Except Failure Spelling
  | .peculiar t => .ok (.peculiar t)
  | .member { identity, name, mixin := .text, numberless := true, .. } _ (.text s) =>
    .ok (.peculiar { identity, kind := name, text := s, equals := (· == s), likeness := none })
  | v =>
    match v.content? with
    | some s => .ok (.plain s)
    | none => .error (.notWritten v.kindName)

/-- What writing the value on its own comes to. -/
def spelled (v : Value) : Script :=
  match v with
  | .member family name _ => family.script.getD (.plain (family.name ++ "." ++ name))
  | .object _ _ script _ _ => script
  | v =>
    { calls := v.calls
      result := match v.unshown? with
        | none => .ok (.plain v.written)
        | some e => .error e }

end Clearance.Value
