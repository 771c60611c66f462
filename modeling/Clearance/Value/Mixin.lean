import Clearance.Decimal.Numeral
import Clearance.Failure
import Clearance.Value.Written

/-!
# What a mixin makes of a value

The members of an enumeration with a `Mixin` are texts or integers, whatever values they were
given: a text is made by writing the value (`Value.spelled`), an integer by `Value.toInteger`.
A number has an integer, which for a float is the part before the point, and so has a text or
a string of octets that an integer is written in.

A tuple stands for the things that a text or an integer is made of. Nothing makes the empty
text and zero, and one thing makes what it makes by itself. Octets followed by the name of
their encoding make the text that they encode; a third thing says what becomes of octets that
encode nothing. An integer in writing followed by a base makes the integer that it is in that
base.
-/

namespace Clearance

/-- The integer of a float. -/
def Decimal.Real.toInteger : Decimal.Real → Except NumberFault Int
  | .nan => .error .ofNaN
  | .infinite _ => .error .ofInfinity
  | .finite negative m q _ =>
    let n : Int := (m <<< q.toNat >>> (-q).toNat : Nat)
    .ok (if negative then -n else n)

/-- The text of octets that are all in ASCII; others have a character in it that is in no
number. -/
def Text.ofAscii (bs : List UInt8) : String :=
  String.ofList (bs.map fun b => if b < 0x80 then Char.ofNat b.toNat else '?')

namespace Value

/-- The integer that the value has in writing, and how it is reported. -/
def writtenInteger? : Value → Option (String × String)
  | .octets bs | .buffer bs => some (Text.ofAscii bs, Text.quotedOctets bs)
  | v => v.content?.map (·, v.shown)

/-- The integer that is written in the text in the base; `shown` is how a text without one is
reported. -/
def readInteger (base : Nat) (s shown : String) : Except NumberFault Int :=
  match Numeral.digitsOfText? base s with
  | none => .error (.notInteger base shown)
  | some (negative, b, ds) =>
    if Numeral.exceeds b ds.length then .error (.tooLong ds.length)
    else
      let n : Int := Numeral.ofDigits b ds
      .ok (if negative then -n else n)

/-- The integer that the value is, if it is one. -/
def integer? : Value → Option Int
  | .bool b => some b.toNat
  | .int i | .member { mixin := .integer, .. } _ (.int i) => some i
  | _ => none

/-- The integer of the value. -/
def toInteger (v : Value) : Except NumberFault Int :=
  match v.integer?, v.writtenInteger?, v with
  | some i, _, _ => .ok i
  | none, some (s, shown), _ => readInteger 10 s shown
  | none, none, .float x => (Decimal.Real.ofFloat x).toInteger
  | none, none, .nan _ => .error .ofNaN
  | none, none, v => .error (.without v.kindName)

/-- The integer of a value in a base. -/
def toIntegerIn (v base : Value) : Except NumberFault Int :=
  match base.integer?, v.writtenInteger? with
  | none, _ => .error (.noBase base.kindName)
  | some b, w =>
    if b ≠ 0 && (b < 2 || 36 < b) then .error .baseOutOfRange
    else
      match w with
      | none => .error .baseWithoutText
      | some (s, shown) => readInteger b.toNat s shown

/-- The fault as it is met in an encoding. Those that are found by a well-known name do not
tell where it was. -/
def faultIn (encoding : String) (fault : TextFault) : Failure :=
  .text (if Text.Encoding.isWellKnown encoding then fault else .inEncoding encoding fault)

/-- The text of the octets in the encoding of the name, where `errors` says what is done with
octets that are refused. -/
def decodedOctets (encoding errors : String) (bs : List UInt8) : Except Failure String :=
  if bs.isEmpty then .ok ""
  else
    match Text.Encoding.ofName? encoding with
    | none =>
      .error (.text
        (if Text.Encoding.isOfOctets encoding then .notTextual encoding
        else .unknownEncoding encoding))
    | some e =>
      match e.decode bs with
      | .ok cs => .ok (String.ofList cs)
      | .error refusal =>
        match errors with
        | "strict" => .error (.undecodable refusal)
        | "ignore" => .ok (String.ofList (e.mend .omission bs))
        | "replace" => .ok (String.ofList (e.mend .replacement bs))
        | "backslashreplace" => .ok (String.ofList (e.mend .escape bs))
        | "surrogatepass" => .error (.undecodable refusal)
        | "xmlcharrefreplace" | "namereplace" => .error (faultIn encoding .oneWayRemedy)
        | errors => .error (faultIn encoding (.unknownRemedy errors))

/-- The text of octets in the encoding of the name. -/
def decoded (encoding errors : String) : Value → Except Failure String
  | .octets bs | .buffer bs => decodedOctets encoding errors bs
  | v =>
    .error (.text (if v.content?.isSome then .decoded else .notOctets v.kindName))

/-- What a value that is no text is called where a text is needed. -/
def nonTextName : Value → String
  | .null => "None"
  | v => v.kindName

/-- The text that the value has to be, in the place of the argument. -/
def textArgument (argument : String) (v : Value) : Except Failure String :=
  match v.content? with
  | some s => if s.toList.contains '\x00' then .error (.text .nullCharacter) else .ok s
  | none => .error (.text (.notText argument v.nonTextName))

/-- The text that the things make. -/
def textOf (vs : List Value) : Except Failure String :=
  match vs with
  | [] => .ok ""
  | [v] => v.spelled.result.map Spelling.content
  | [v, encoding] => do v.decoded (← encoding.textArgument "encoding") "strict"
  | [v, encoding, errors] => do
    let encoding ← encoding.textArgument "encoding"
    v.decoded encoding (← errors.textArgument "errors")
  | vs => .error (.text (.tooMany vs.length))

/-- The integer that the things make. -/
def integerOf (vs : List Value) : Except NumberFault Int :=
  match vs with
  | [] => .ok 0
  | [v] => v.toInteger
  | [v, base] => v.toIntegerIn base
  | vs => .error (.tooMany vs.length)

/-- The things that the value stands for where something is made of it. -/
def things : Value → List Value
  | .container .tuple vs => vs
  | v => [v]

/-- The value as the mixin has it. -/
def mixed (mixin : Mixin) (v : Value) : Except Failure Value :=
  match mixin with
  | .none => .ok v
  | .text => (textOf v.things).map .text
  | .integer => ((integerOf v.things).mapError .number).map .int

/-- The routines of the caller's that are called to make what the mixin has of the value: it is
written once for the member and once for its value. -/
def mixingCalls (mixin : Mixin) (v : Value) : List String :=
  match mixin, v.things with
  | .text, [w] => w.spelled.calls ++ w.spelled.calls
  | _, _ => []

end Value

end Clearance
