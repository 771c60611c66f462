import Clearance.Declaration.Issue
import Clearance.Storage.Fault
import Clearance.Text.Encoding
import Clearance.Text.Wording

/-!
# Failures

Why something could not be done, one constructor per cause. `Failure.message` is the only
place where a cause is put into words, and `Failure.name` says what it is called. The first
group are the library's own failures; the second comes from handing it something that cannot
be used in the way asked for; `raised` is a failure of the caller's making, which passes
through unchanged.
-/

namespace Clearance

/-- Why something is no context to evaluate in. -/
inductive ContextFault where
  /-- It is no mapping but of the kind named. -/
  | notMapping (kind : String)
  /-- Under the scope there is something of the kind named, which cannot be a list of grants. -/
  | unreadableGrants (scope kind : String)
  /-- Any other reason, in words. -/
  | because (detail : String)
  deriving DecidableEq, Repr

/-- Why there is no number for something. What was to be a number is given as it is written
inside something else. -/
inductive NumberFault where
  | notInteger (base : Nat) (shown : String)
  | notDecimal (shown : String)
  /-- An integer with so many digits. -/
  | tooLong (digits : Nat)
  /-- An integer with too many digits to be written. -/
  | tooLongToWrite
  /-- Something of the kind named, which has no integer. -/
  | without (kind : String)
  /-- The floating-point number that is none has no integer. -/
  | ofNaN
  | ofInfinity
  /-- A base was given for something that is no text. -/
  | baseWithoutText
  /-- A base that is no integer but of the kind named. -/
  | noBase (kind : String)
  | baseOutOfRange
  /-- An integer was to be made of so many things. -/
  | tooMany (given : Nat)
  deriving DecidableEq, Repr

/-- Why there is no text for octets in an encoding. -/
inductive TextFault where
  /-- Something is a text already. -/
  | decoded
  /-- Something is of the kind named and no octets. -/
  | notOctets (kind : String)
  /-- The argument is no text but of the kind named. -/
  | notText (argument kind : String)
  /-- The character NUL is in an argument. -/
  | nullCharacter
  | unknownEncoding (name : String)
  /-- No remedy for octets that are refused has the name. -/
  | unknownRemedy (name : String)
  /-- The remedy is one for writing octets and not for reading them. -/
  | oneWayRemedy
  /-- The encoding of the name is one of octets as octets. -/
  | notTextual (name : String)
  /-- The fault was met in the encoding of the name. -/
  | inEncoding (name : String) (fault : TextFault)
  /-- A text was to be made of so many things. -/
  | tooMany (given : Nat)
  deriving DecidableEq, Repr

/-- Why there is no enumeration with the names given. -/
inductive FamilyFault where
  /-- The name has been given to this value, as it is written inside something else. -/
  | repeated (name shown : String)
  /-- A low line on both sides of a name is kept for later. -/
  | reserved (name : String)
  /-- No member can have one of the names. -/
  | forbidden (names : List String)
  /-- Names that members have already were to be left out. -/
  | taken (names : List String)
  /-- The members have not the order that was asked for; both are as they are written. -/
  | outOfOrder (members asked : String)
  deriving DecidableEq, Repr

inductive Failure where
  /-- A failure of no particular kind. -/
  | general (detail : String)
  | duplicateScope (scope : String)
  | invalidContext (fault : ContextFault)
  | malformedPath (path : Wording)
  | undeclaredPermission (scope permission : String)
  /-- A configuration could not be read from the source; the fault met in storage, if that
  was the reason. -/
  | configuration (source detail : String) (fault : Option Storage.Fault)
  /-- A payload declares no such thing. -/
  | rejected (rejection : Rejection)
  /-- Something of the kind named was to be iterated over. -/
  | notIterable (kind : String)
  /-- Something of the kind named was to be called. -/
  | notCallable (kind : String)
  /-- A look for a text in something of the kind named, which holds nothing. -/
  | notContainer (kind : String)
  /-- A look for a text among octets. -/
  | textAmongOctets
  /-- A look for a text in an enumeration, which is of the kind named. -/
  | textAmongMembers (kind : String)
  /-- A routine that is to write something gave something of the kind named, which is no text. -/
  | notWritten (kind : String)
  /-- Something of the kind named was to be a key or an item of a set, and may change. -/
  | changeable (kind : String)
  | number (fault : NumberFault)
  | text (fault : TextFault)
  | family (fault : FamilyFault)
  /-- Something that is written like this is the value of no member of the enumeration. -/
  | noMember (shown family : String)
  /-- A member was to be found in an enumeration that has none. -/
  | noMembers (family : String)
  | unknownKey (key : String)
  /-- Something that is written like this was to be a state of a scope. -/
  | unknownState (shown : String)
  /-- A path with the character NUL in it. -/
  | nullInPath
  | undecodable (refusal : Text.Encoding.Refusal)
  | raised (kind detail : String)
  deriving DecidableEq, Repr

def ContextFault.message : ContextFault → String
  | .notMapping kind => "expected a mapping of scope to grants, got " ++ kind
  | .unreadableGrants scope kind =>
    "grants for scope '" ++ scope ++ "' must be a sequence of permissions, got " ++ kind
  | .because detail => detail

/-- The cause in words. -/
def Text.Encoding.Cause.message : Text.Encoding.Cause → String
  | .utf8 cause => cause.message
  | .codeUnit cause => cause.message
  | .beyondAscii => "ordinal not in range(128)"
  | .unassigned => "character maps to <undefined>"

/-- The refusal of octets in words. -/
def Text.Encoding.Refusal.message (r : Text.Encoding.Refusal) : String :=
  "'" ++ r.codec ++ "' codec can't decode " ++
    (if r.stop = r.start + 1 then
      "byte 0x" ++ String.ofList (Text.hexDigits 2 r.first.toNat) ++ " in position " ++
        toString r.start
    else "bytes in position " ++ toString r.start ++ "-" ++ toString (r.stop - 1)) ++
    ": " ++ r.cause.message

def NumberFault.message : NumberFault → String
  | .notInteger base shown =>
    "invalid literal for int() with base " ++ toString base ++ ": " ++ (shown.take 200).toString
  | .notDecimal shown => "could not convert string to float: " ++ shown
  | .tooLong digits =>
    "Exceeds the limit (4300 digits) for integer string conversion: value has " ++
      toString digits ++ " digits; use sys.set_int_max_str_digits() to increase the limit"
  | .tooLongToWrite =>
    "Exceeds the limit (4300 digits) for integer string conversion; " ++
      "use sys.set_int_max_str_digits() to increase the limit"
  | .without kind =>
    "int() argument must be a string, a bytes-like object or a real number, not '" ++ kind ++ "'"
  | .ofNaN => "cannot convert float NaN to integer"
  | .ofInfinity => "cannot convert float infinity to integer"
  | .baseWithoutText => "int() can't convert non-string with explicit base"
  | .noBase kind => "'" ++ kind ++ "' object cannot be interpreted as an integer"
  | .baseOutOfRange => "int() base must be >= 2 and <= 36, or 0"
  | .tooMany given => "int() takes at most 2 arguments (" ++ toString given ++ " given)"

def TextFault.name : TextFault → String
  | .unknownEncoding _ | .unknownRemedy _ | .notTextual _ => "LookupError"
  | .nullCharacter => "ValueError"
  | .decoded | .notOctets _ | .notText .. | .oneWayRemedy | .tooMany _ => "TypeError"
  | .inEncoding _ fault => fault.name

def TextFault.message : TextFault → String
  | .decoded => "decoding str is not supported"
  | .notOctets kind => "decoding to str: need a bytes-like object, " ++ kind ++ " found"
  | .notText argument kind =>
    "str() argument '" ++ argument ++ "' must be str, not " ++ kind
  | .nullCharacter => "embedded null character"
  | .unknownEncoding name => "unknown encoding: " ++ name
  | .unknownRemedy name => "unknown error handler name '" ++ name ++ "'"
  | .oneWayRemedy => "don't know how to handle UnicodeDecodeError in error callback"
  | .notTextual name =>
    "'" ++ name ++ "' is not a text encoding; use codecs.decode() to handle arbitrary codecs"
  | .inEncoding name fault =>
    "decoding with '" ++ name ++ "' codec failed (" ++ fault.name ++ ": " ++ fault.message ++ ")"
  | .tooMany given => "str() takes at most 3 arguments (" ++ toString given ++ " given)"

def FamilyFault.message : FamilyFault → String
  | .repeated name shown => Text.quoted name ++ " already defined as " ++ shown
  | .reserved name =>
    "_sunder_ names, such as " ++ Text.quoted name ++ ", are reserved for future Enum use"
  | .forbidden names =>
    "invalid enum member name(s) " ++ ",".intercalate (names.map Text.quoted)
  | .taken names =>
    "_ignore_ cannot specify already set names: \x7b" ++
      ", ".intercalate (names.map Text.quoted) ++ "\x7d"
  | .outOfOrder members asked =>
    "member order does not match _order_:\n  " ++ members ++ "\n  " ++ asked

/-- The failure in words; a rejection is told by its issues instead. -/
def Failure.message : Failure → String
  | .general detail => detail
  | .duplicateScope scope =>
    "Scope '" ++ scope ++ "' is already registered - modules must have unique names"
  | .invalidContext fault => "Invalid evaluation context: " ++ fault.message
  | .malformedPath path =>
    "Malformed permission path '" ++ path.written ++ "': expected '<scope>.<permission>'"
  | .undeclaredPermission scope permission =>
    "Permission '" ++ permission ++ "' is not declared for scope '" ++ scope ++ "'"
  | .configuration source detail _ =>
    "Cannot load registry configuration from '" ++ source ++ "'" ++
      (if detail = "" then "" else ": " ++ detail)
  | .rejected rejection => rejection.subject.title
  | .notIterable kind => "'" ++ kind ++ "' object is not iterable"
  | .notCallable kind => "'" ++ kind ++ "' object is not callable"
  | .notContainer kind => "argument of type '" ++ kind ++ "' is not iterable"
  | .textAmongOctets => "a bytes-like object is required, not 'str'"
  | .textAmongMembers kind => "unsupported operand type(s) for 'in': 'str' and '" ++ kind ++ "'"
  | .notWritten kind => "__str__ returned non-string (type " ++ kind ++ ")"
  | .changeable kind => "unhashable type: '" ++ kind ++ "'"
  | .number fault => fault.message
  | .text fault => fault.message
  | .family fault => fault.message
  | .noMember shown title => shown ++ " is not a valid " ++ title
  | .noMembers title => "<enum " ++ Text.quoted title ++ "> has no members defined"
  | .unknownKey key => Text.quoted key
  | .unknownState shown => shown ++ " is not a valid ScopeState"
  | .nullInPath => "embedded null byte"
  | .undecodable refusal => refusal.message
  | .raised _ detail => detail

def NumberFault.name : NumberFault → String
  | .without _ | .baseWithoutText | .noBase _ | .tooMany _ => "TypeError"
  | .ofInfinity => "OverflowError"
  | .notInteger .. | .notDecimal _ | .tooLong _ | .tooLongToWrite | .ofNaN
  | .baseOutOfRange => "ValueError"

def FamilyFault.name : FamilyFault → String
  | .repeated .. | .outOfOrder .. => "TypeError"
  | .reserved _ | .forbidden _ | .taken _ => "ValueError"

/-- What the failure is called. -/
def Failure.name : Failure → String
  | .general _ => "RbacError"
  | .duplicateScope _ => "DuplicateScopeError"
  | .invalidContext _ => "InvalidContextError"
  | .malformedPath _ => "InvalidPathError"
  | .undeclaredPermission .. => "UnknownPermissionError"
  | .configuration .. => "RegistryConfigError"
  | .rejected _ => "ValidationError"
  | .notIterable _ | .notCallable _ | .notContainer _ | .textAmongOctets | .textAmongMembers _
  | .notWritten _ | .changeable _ | .noMembers _ => "TypeError"
  | .number fault => fault.name
  | .text fault => fault.name
  | .family fault => fault.name
  | .unknownKey _ => "KeyError"
  | .noMember .. | .unknownState _ | .nullInPath => "ValueError"
  | .undecodable _ => "UnicodeDecodeError"
  | .raised name _ => name

/-- The failure by its name and in words, where there are some. -/
def Failure.told (e : Failure) : String :=
  if e.message = "" then e.name else e.name ++ ": " ++ e.message

end Clearance
