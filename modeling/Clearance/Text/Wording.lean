import Clearance.Text.Quoted

/-!
# Texts with a form of their own

Only the characters of a text count where texts are compared or taken apart. But a caller may
hold a text in a form that is written in another way, such as a member of an enumeration. A
`Wording` is such a text: its characters, and how it is written on its own and inside
something else. A text without a form of its own is written by its characters, inside quote
marks where it is inside something else.
-/

namespace Clearance

structure Wording where
  text : String
  /-- How the text is written on its own. -/
  written : String
  /-- How the text is written inside something else. -/
  shown : String
  deriving DecidableEq, Repr

/-- The text without a form of its own. -/
def Wording.plain (s : String) : Wording :=
  ⟨s, s, Text.quoted s⟩

instance : Coe String Wording := ⟨Wording.plain⟩

end Clearance
