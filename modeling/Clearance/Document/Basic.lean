import Clearance.Decimal.Numeral
import Clearance.Value.Basic

/-!
# Documents

A document in JSON is null, a truth value, a number, a text, a list or an object. An object
keeps its fields in the order of the text, also those with the same name. `Document.toValue`
is the value that a document denotes; of the fields with one name the last one counts there.
-/

namespace Clearance

inductive Document where
  | null
  | bool (b : Bool)
  | number (n : Numeral)
  | text (s : String)
  | list (items : List Document)
  | object (fields : List (String × Document))
  deriving Inhabited

/-- The value that the number denotes; `identity` tells the number that is none from others
of its kind. -/
def Numeral.toValue (identity : Identity) : Numeral → Value
  | .integer i => .int i
  | .decimal negative digits exponent => .float (float negative digits exponent)
  | .nan => .nan identity
  | .infinite negative => .float (if negative then -1.0 / 0.0 else 1.0 / 0.0)

namespace Document

/-- `entries` with the text `k` bound to `v`: a text that is there keeps its place. -/
def bind (k : String) (v : Value) : List (Value × Value) → List (Value × Value)
  | [] => [(.text k, v)]
  | (k', v') :: es =>
    if k'.foundAs? = some k then (k', v) :: es else (k', v') :: bind k v es

/-- The entries of the fields, each name in its first place with its last value. -/
def table (fields : List (String × Value)) : List (Value × Value) :=
  fields.foldl (fun es f => bind f.1 f.2 es) []

mutual

/-- The value that the document denotes. -/
def toValue : Document → Value
  | .null => .null
  | .bool b => .bool b
  | .number n => n.toValue 0
  | .text s => .text s
  | .list items => .container .list (toValues items)
  | .object fields => .mapping .table (table (toFields fields))

def toValues : List Document → List Value
  | [] => []
  | d :: ds => toValue d :: toValues ds

def toFields : List (String × Document) → List (String × Value)
  | [] => []
  | (name, d) :: fs => (name, toValue d) :: toFields fs

end

end Document

end Clearance
