import Clearance.Document.Token

/-!
# Reading a document

The tokens of a document are read one after the other. `Reading` holds the lists and objects
that are open, the innermost first, and what may come next; `Reading.next` takes one token,
and `Document.ofTokens?` all of them. No more than `Reading.limit` lists and objects that
are not empty may be inside each other.
-/

namespace Clearance

/-- A list or an object whose end has not been read, with what it has so far, the last part
first. -/
inductive Enclosure where
  | list (items : List Document)
  | object (fields : List (String × Document))
  /-- An object with a name whose document has not been read. -/
  | field (fields : List (String × Document)) (name : String)

/-- What may come next. -/
inductive Expectation where
  | document
  /-- A document or the end of the list. -/
  | firstItem
  /-- A name or the end of the object. -/
  | firstName
  | name
  /-- The colon after the name. -/
  | colon (name : String)
  /-- A comma or the end. -/
  | separator
  /-- Nothing: the document is read. -/
  | nothing (document : Document)

structure Reading where
  stack : List Enclosure
  expected : Expectation

namespace Reading

/-- How many lists and objects that are not empty may be inside each other. -/
def limit : Nat := 200

/-- A document is read to its end. -/
def complete (stack : List Enclosure) (d : Document) : Option Reading :=
  match stack with
  | [] => some ⟨[], .nothing d⟩
  | .list items :: stack => some ⟨.list (d :: items) :: stack, .separator⟩
  | .field fields name :: stack => some ⟨.object ((name, d) :: fields) :: stack, .separator⟩
  | .object _ :: _ => none

/-- A document starts with the token. -/
def document (stack : List Enclosure) : Token → Option Reading
  | .plain d => complete stack d
  | .text s => complete stack (.text s)
  | .openList => some ⟨.list [] :: stack, .firstItem⟩
  | .openObject => some ⟨.object [] :: stack, .firstName⟩
  | _ => none

/-- The reading after one more token. -/
def next (r : Reading) (t : Token) : Option Reading :=
  match r.expected, t, r.stack with
  | .document, t, stack => document stack t
  | .firstItem, .closeList, .list _ :: stack => complete stack (.list [])
  | .firstItem, t, stack => if stack.length ≤ limit then document stack t else none
  | .firstName, .closeObject, .object _ :: stack => complete stack (.object [])
  | .firstName, .text s, stack => if stack.length ≤ limit then some ⟨stack, .colon s⟩ else none
  | .name, .text s, stack => some ⟨stack, .colon s⟩
  | .colon name, .colon, .object fields :: stack => some ⟨.field fields name :: stack, .document⟩
  | .separator, .comma, .list items :: stack => some ⟨.list items :: stack, .document⟩
  | .separator, .comma, .object fields :: stack => some ⟨.object fields :: stack, .name⟩
  | .separator, .closeList, .list items :: stack => complete stack (.list items.reverse)
  | .separator, .closeObject, .object fields :: stack =>
    complete stack (.object fields.reverse)
  | _, _, _ => none

end Reading

namespace Document

/-- The document that the tokens make up. -/
def ofTokens? (ts : List Token) : Option Document := do
  match (← ts.foldlM Reading.next ⟨[], .document⟩).expected with
  | .nothing d => some d
  | _ => none

/-- The document that the text is. -/
def ofText? (s : String) : Option Document :=
  (Token.ofText? s.toList).bind ofTokens?

end Document

end Clearance
