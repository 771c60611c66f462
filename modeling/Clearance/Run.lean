import Clearance.Failure
import Clearance.Trace
import Clearance.Value.Shared

/-!
# Runs

Whatever looks at values, draws from one-shot sources or writes log records is a `Run`: it
ends in a result or in a `Failure`, and in both cases in a `Session`, which holds the state of
all sources and all shared lists, the identities given out, and the events so far. Nothing is
lost by a failure: what was drawn before it stays drawn, and what happened before it stays in
the trace.

The items of a value are reached by `Run.visit`, which goes through them one after the other,
and by `Run.iterate`, which gathers all of them. Both record that the value is traversed, and
drawing from a source records each item just before it is handed out. What a visit does to an
item is done before the next one is drawn. If the value fails to yield its next item, a visit
ends there, while gathering fails.
-/

namespace Clearance

/-- The state of a one-shot source: it yields its items, and then, if it has a failure to
raise, raises it. Afterwards it is empty. -/
structure Source where
  items : List Value
  failure : Option Failure

/-- A source that yields nothing any more. -/
def Source.spent : Source := ⟨[], none⟩

structure Session where
  /-- The sources by their numbers. -/
  sources : List Source := []
  /-- The events so far, the first one first. -/
  trace : Array Event := #[]
  /-- How many identities are given out. -/
  identities : Nat := 0
  /-- The items of the shared lists by their numbers. -/
  lists : List (List Value) := []

/-- A computation that may fail and that changes the session either way. -/
abbrev Run := ExceptT Failure (StateM Session)

/-- What comes of going through the items of a value. -/
inductive Visit (β : Type) where
  /-- What came of each item, in order. -/
  | complete (results : List β)
  /-- The value failed to yield the item with this number. -/
  | interrupted (index : Nat) (failure : Failure)

namespace Visit

/-- The visit with one more item before the others. -/
def cons {β : Type} (y : β) : Visit β → Visit β
  | .complete ys => .complete (y :: ys)
  | .interrupted i e => .interrupted i e

/-- What came of the items; it fails if the value did. -/
def results {β : Type} : Visit β → Run (List β)
  | .complete ys => return ys
  | .interrupted _ e => throw e

end Visit

namespace Run

/-- The result of `x` in the session `s`, and the session after it. -/
def outcome {α : Type} (x : Run α) (s : Session) : Except Failure α × Session :=
  StateT.run (ExceptT.run x) s

/-- Adds an event to the trace. -/
def record (e : Event) : Run Unit :=
  modify fun s => { s with trace := s.trace.push e }

/-- Writes a log record. -/
def log (r : Record) : Run Unit :=
  record (.logged r)

/-- An identity that nothing else has. -/
def newIdentity : Run Identity :=
  modifyGet fun s => (s.identities, { s with identities := s.identities + 1 })

/-- Makes a new source, and nothing is drawn from it yet. -/
def newSource (source : Source) : Run Value :=
  modifyGet fun s => (.source s.sources.length, { s with sources := s.sources ++ [source] })

/-- Makes a new shared list. -/
def newList (items : List Value) : Run Value :=
  modifyGet fun s => (.shared s.lists.length, { s with lists := s.lists ++ [items] })

/-- The items that the shared list has by now. -/
def listed (id : Nat) : Run (List Value) := do
  return ((← get).lists[id]?).getD []

/-- Puts one more item at the end of the shared list, which then has so many. -/
def append (id : Nat) (v : Value) : Run Nat := do
  let items ← listed id
  modify fun s => { s with lists := s.lists.set id (items ++ [v]) }
  return items.length + 1

/-- The value with the shared lists in it as they are. -/
def current (v : Value) : Run Value := do
  return v.now (← get).lists

/-- The state that the source is in. -/
def source (id : Nat) : Run Source := do
  return ((← get).sources[id]?).getD .spent

/-- Puts the source into a state. -/
def setSource (id : Nat) (source : Source) : Run Unit :=
  modify fun s => { s with sources := s.sources.set id source }

/-- Does `f` to the items in turn, which are numbered from `i` on. -/
def inTurn {α β : Type} (f : Nat → α → Run β) : (i : Nat) → List α → Run (List β)
  | _, [] => return []
  | i, x :: xs => do
    let y ← f i x
    return y :: (← inTurn f (i + 1) xs)

/-- Draws the items from the source and does `f` to each; the first one has the number `i`. -/
def drawEach {β : Type} (f : Nat → Value → Run β) (id : Nat) (failure : Option Failure) :
    (i : Nat) → List Value → Run (Visit β)
  | i, [] => do
    setSource id .spent
    match failure with
    | none => return .complete []
    | some e => return .interrupted i e
  | i, x :: xs => do
    setSource id ⟨xs, failure⟩
    record .produced
    let y ← f i x
    return (← drawEach f id failure (i + 1) xs).cons y

/-- Does `f` to each item of the value, if it can be iterated over. -/
def visit {β : Type} (v : Value) (f : Nat → Value → Run β) : Run (Visit β) :=
  match Iteration.of? v with
  | none => throw (.notIterable v.kindName)
  | some (.items xs) => do
    record (.look v .traversed)
    return .complete (← inTurn f 0 xs)
  | some (.shared id) => do
    record (.look v .traversed)
    return .complete (← inTurn f 0 (← listed id))
  | some (.source id) => do
    record (.look v .traversed)
    let ⟨xs, failure⟩ ← source id
    drawEach f id failure 0 xs

/-- All items of the source that are left. -/
def drain (id : Nat) : Run (List Value) := do
  let ⟨xs, failure⟩ ← source id
  (← drawEach (fun _ x => return x) id failure 0 xs).results

/-- All items of the value, if it can be iterated over. -/
def iterate (v : Value) : Run (List Value) :=
  match Iteration.of? v with
  | none => throw (.notIterable v.kindName)
  | some (.items xs) => do
    record (.look v .traversed)
    return xs
  | some (.shared id) => do
    record (.look v .traversed)
    listed id
  | some (.source id) => do
    record (.look v .traversed)
    drain id

end Run

end Clearance
