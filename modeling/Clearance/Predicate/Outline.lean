/-!
# Outlines

The outline of a predicate is what can be told about it without a context: the operators of
its tree and, at the ends, paths and names. `Outline.rows` lists an outline line by line, each
with its depth, a part before its own parts.
-/

namespace Clearance

inductive Outline where
  /-- An operator over parts in order. -/
  | group (operator : String) (parts : List Outline)
  /-- An operator on a permission path. -/
  | path (operator path : String)
  /-- Something known by a name only. -/
  | named (operator name : String)
  deriving Inhabited

/-- A line of an outline. -/
structure Outline.Row where
  depth : Nat
  operator : String
  /-- The path or the name, if the line is an end. -/
  label : Option String
  deriving DecidableEq, Repr

namespace Outline

mutual

/-- The lines of the outline at a depth, before the lines `after`. -/
def rowsBefore (depth : Nat) (after : List Row) : Outline → List Row
  | .group operator parts => ⟨depth, operator, none⟩ :: partsBefore (depth + 1) after parts
  | .path operator label => ⟨depth, operator, some label⟩ :: after
  | .named operator label => ⟨depth, operator, some label⟩ :: after

/-- The lines of the parts in order, before the lines `after`. -/
def partsBefore (depth : Nat) (after : List Row) : List Outline → List Row
  | [] => after
  | o :: os => rowsBefore depth (partsBefore depth after os) o

end

/-- The lines of the outline. -/
def rows (o : Outline) : List Row :=
  rowsBefore 0 [] o

end Outline

end Clearance
