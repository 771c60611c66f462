import Clearance.Run
import Clearance.Value.Agreement
import Clearance.Value.Written

/-!
# What may be demanded of a value

Where a value is written or is to be a key, a run may fail because of the value. To write it
(`Run.spell`) calls the routines of the caller's that this takes, each of which is recorded. What
is to be a key, or an item of a set, must not change (`Run.requireFixed`). A failure that shows
the value (`Run.refuse`) is another one if the value cannot be written.
-/

namespace Clearance.Run

/-- Calls the routines, each of which does no more than to be recorded. -/
def callAll (names : List String) : Run Unit :=
  names.forM fun name => record (.called name)

/-- The text that the value is written as. -/
def spell (v : Value) : Run Spelling := do
  callAll v.spelled.calls
  MonadExcept.ofExcept v.spelled.result

/-- Fails because of the value, which is shown in the failure. -/
def refuse {α : Type} (v : Value) (because : String → Failure) : Run α := do
  callAll v.calls
  throw (v.unshown?.getD (because v.shown))

/-- Fails if the value may change. -/
def requireFixed (v : Value) : Run Unit :=
  match v.changeable? with
  | none => return
  | some kind => throw (.changeable kind)

/-- All items of the value, none of which may change. -/
def iterateFixed (v : Value) : Run (List Value) := do
  (← visit v fun _ x => do requireFixed x; return x).results

end Clearance.Run
