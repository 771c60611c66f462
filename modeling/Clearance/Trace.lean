import Clearance.Value.Basic

/-!
# What a run leaves behind

Deciding about access looks at values, draws items from one-shot sources, calls predicates
that callers supply and writes log records. Each of these is an `Event`; a run leaves the list
of its events in the order in which they happen. Every look is an event, also those that the
value looked at does not report by itself.
-/

namespace Clearance

/-- What a log record is about. -/
inductive Record where
  /-- The name of the scope to be registered has a separator in it. -/
  | unaddressableScope (scope : String)
  /-- The scope is registered with so many permissions. -/
  | registering (scope : String) (permissions : Nat)
  /-- The scope is asked for and not in the context. -/
  | absentScope (scope : String)
  /-- The path is not one. -/
  | malformedPath (path : String)
  /-- The permission that the path names is not declared. -/
  | undeclaredPath (path : String)
  deriving DecidableEq, Repr

/-- How important a record is. -/
inductive Level where
  | debug
  | warning
  deriving DecidableEq, Repr

/-- The part of the library that writes a record. -/
inductive Area where
  | registry
  | context
  | expression
  deriving DecidableEq, Repr

namespace Record

def level : Record → Level
  | .registering .. | .absentScope _ => .debug
  | .unaddressableScope _ | .malformedPath _ | .undeclaredPath _ => .warning

def area : Record → Area
  | .unaddressableScope _ | .registering .. => .registry
  | .absentScope _ => .context
  | .malformedPath _ | .undeclaredPath _ => .expression

/-- The record in words. -/
def message : Record → String
  | .unaddressableScope scope =>
    "Scope '" ++ scope ++ "' contains '.'; no permission path can address it"
  | .registering scope permissions =>
    "Registering scope '" ++ scope ++ "' (" ++ toString permissions ++ " permissions)"
  | .absentScope scope => "Scope '" ++ scope ++ "' absent from context"
  | .malformedPath path =>
    "Malformed permission path '" ++ path ++ "'; it will never match"
  | .undeclaredPath path =>
    "Permission path '" ++ path ++ "' is not declared in the registry"

end Record

/-- A question to a value. -/
inductive Look where
  /-- Is the text a key of the mapping? -/
  | tested (key : String)
  /-- What does the mapping have under the text? -/
  | fetched (key : String)
  /-- What does the mapping have under this one of its keys? -/
  | entry (key : Value)
  /-- What are the items, one after the other? -/
  | traversed

inductive Event where
  /-- The value is looked at. -/
  | look (value : Value) (look : Look)
  /-- A one-shot source yields an item. -/
  | produced
  /-- A predicate that a caller supplies, of this name, is called. -/
  | called (name : String)
  | logged (record : Record)

end Clearance
