import Clearance.Value.Demand

/-!
# Identifiers of permissions

A grant and an entry of a permission domain stand for an *identifier*: a text, or nothing.
`Value.identified` takes a member of an enumeration by its value, a text as it is, and any other
value by what is written for it, which may fail; only `null` stands for nothing. The identifier of
a value is a value again, since the text may be a peculiar one.

What counts of an identifier is as what it is found (`Identifier.ofValue?`). A peculiar text that
no text finds is as none of the `Identifier`s.
-/

namespace Clearance

/-- The text as a value. -/
def Spelling.toValue : Spelling → Value
  | .plain s => .text s
  | .peculiar t => .peculiar t

namespace Value

/-- What is written to identify the value, if it is not its own identifier. -/
def identifying? : Value → Option Value
  | .null | .text _ | .ownText _ | .peculiar _ => none
  | .member _ _ value => some value
  | v => some v

/-- The identifier of the value as a value, or why it has none. -/
def identified (v : Value) : Except Failure Value :=
  match v.identifying?, v with
  | some w, _ => w.spelled.result.map Spelling.toValue
  | none, .ownText s => .ok (.text s)
  | none, v => .ok v

/-- The routines of the caller's that are called to identify the value. -/
def identifyingCalls (v : Value) : List String :=
  match v.identifying? with
  | some w => w.spelled.calls
  | none => []

end Value

namespace Run

/-- The identifier of the value as it is now. -/
def identify (v : Value) : Run Value := do
  let v ← current v
  callAll v.identifyingCalls
  MonadExcept.ofExcept v.identified

/-- The identifiers of the items of the value, if it can be iterated over. An item that has none
is the last one drawn. -/
def identifyAll (v : Value) : Run (List Value) := do
  (← visit v fun _ x => identify x).results

/-- The identifier of the value as it is now, which must not change. -/
def identifyFixed (v : Value) : Run Value := do
  let p ← identify v
  requireFixed p
  return p

/-- The identifiers of the items of the value, none of which may change. -/
def identifyAllFixed (v : Value) : Run (List Value) := do
  (← visit v fun _ x => identifyFixed x).results

end Run

/-- As what an identifier is found: `none` is that of `null`, which no text is. -/
abbrev Identifier := Option String

/-- As what the value itself is found, if it is the identifier of something. -/
def Identifier.ofValue? : Value → Option Identifier
  | .null => some none
  | v => v.foundAs?.map some

/-- The value that is the identifier itself. -/
def Identifier.toValue : Identifier → Value
  | none => .null
  | some s => .text s

/-- As a text is found what that text finds. -/
theorem Identifier.ofValue?_eq_text {v : Value} {q : String} :
    Identifier.ofValue? v = some (some q) ↔ v.foundAs? = some q := by
  unfold Identifier.ofValue?
  split
  · exact ⟨fun h => (by cases h), fun h => (by cases h)⟩
  · rw [Option.map_eq_some_iff]
    exact ⟨fun ⟨_, hs, h⟩ => Option.some.inj h ▸ hs, fun h => ⟨q, h, rfl⟩⟩

/-- The value of an identifier is that identifier. -/
@[simp] theorem Identifier.ofValue?_toValue (p : Identifier) :
    Identifier.ofValue? p.toValue = some p := by
  cases p <;> rfl

/-- The identifier of an identifier is that identifier. -/
@[simp] theorem Identifier.identified_toValue (p : Identifier) :
    p.toValue.identified = .ok p.toValue := by
  cases p <;> rfl

end Clearance
