/-!
# What is wrong with a declaration

Reading a declaration does not stop at the first mistake: it gathers an `Issue` for each, with
the place in the payload where it was found. `Rejection` is the outcome of a reading with at
least one issue; what an issue is called (`Fault.kind`) does not depend on the form of the
payload, how it is put into words (`Fault.message`) does.
-/

namespace Clearance

/-- What is declared. -/
inductive Subject where
  | module
  | registry
  | context
  deriving DecidableEq, Repr

/-- What the declaration of the subject is called. -/
def Subject.title : Subject → String
  | .module => "ModuleSchema"
  | .registry => "RegistrySchema"
  | .context => "ContextSchema"

/-- The form in which a payload is given. -/
inductive Form where
  /-- A value that the caller holds. -/
  | value
  /-- The text of a document. -/
  | document
  deriving DecidableEq, Repr

/-- What an identifier that is declared stands for. -/
inductive Role where
  | scope
  | permission
  deriving DecidableEq, Repr

def Role.title : Role → String
  | .scope => "Scope name"
  | .permission => "Permission"

/-- A text that may not be declared as an identifier. -/
inductive BadIdentifier where
  | empty (role : Role)
  /-- The text has a separator in it. -/
  | separated (role : Role) (text : String)
  deriving DecidableEq, Repr

def BadIdentifier.message : BadIdentifier → String
  | .empty role => role.title ++ " must not be empty"
  | .separated role text => role.title ++ " '" ++ text ++ "' must not contain '.'"

/-- What an issue is about. -/
inductive Fault where
  /-- The document is not well-formed. -/
  | malformed
  /-- A field that has to be there is not. -/
  | missing
  | notText
  /-- The octets are no text. -/
  | notUnicode
  | notList
  /-- The list is empty. -/
  | tooShort
  /-- The list failed to yield its next item; the failure is told. -/
  | interrupted (failure : String)
  /-- The declaration of the subject is no mapping. -/
  | notRecord (subject : Subject)
  /-- The declaration of a context is no mapping. -/
  | notTable
  | badIdentifier (cause : BadIdentifier)
  deriving DecidableEq, Repr

/-- What the fault is called. -/
def Fault.kind : Fault → String
  | .malformed => "json_invalid"
  | .missing => "missing"
  | .notText => "string_type"
  | .notUnicode => "string_unicode"
  | .notList => "list_type"
  | .tooShort => "too_short"
  | .interrupted _ => "iteration_error"
  | .notRecord _ => "model_type"
  | .notTable => "dict_type"
  | .badIdentifier _ => "value_error"

/-- The fault in words, as they are chosen for a payload of the form. A document that is not
well-formed is told by the name of the fault alone. -/
def Fault.message (form : Form) : Fault → Option String
  | .malformed => none
  | .missing => some "Field required"
  | .notText => some "Input should be a valid string"
  | .notUnicode =>
    some "Input should be a valid string, unable to parse raw data as a unicode string"
  | .notList => some (match form with
    | .value => "Input should be a valid list"
    | .document => "Input should be a valid array")
  | .tooShort => some "List should have at least 1 item after validation, not 0"
  | .interrupted failure => some ("Error iterating over object, error: " ++ failure)
  | .notRecord subject => some (match form with
    | .value => "Input should be a valid dictionary or instance of " ++ subject.title
    | .document => "Input should be an object")
  | .notTable => some (match form with
    | .value => "Input should be a valid dictionary"
    | .document => "Input should be an object")
  | .badIdentifier cause => some ("Value error, " ++ cause.message)

/-- A step from a part of a payload to a part of that. -/
inductive Step where
  | field (name : String)
  | index (i : Int)
  deriving DecidableEq, Repr

/-- A fault and the way to it. -/
structure Issue where
  place : List Step
  fault : Fault
  deriving DecidableEq, Repr

/-- A payload that declares no such subject. -/
structure Rejection where
  subject : Subject
  form : Form
  issues : List Issue
  deriving DecidableEq, Repr

end Clearance
