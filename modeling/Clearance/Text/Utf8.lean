/-!
# Octets as text

Reading a string of octets as UTF-8. `Utf8.decode` reads one octet at a time and keeps the
character that is under way (`Utf8.Unfinished`): the octets still missing and the interval that
the next one has to lie in. A refusal names the octets at fault by their positions and gives
the cause: an octet that starts no character, an octet that does not continue the character
under way (the octets at fault are then those read of that character), or the end of the
octets inside a character.

`normalNewlines` turns each carriage return, alone or before a line feed, into a line feed.
-/

namespace Clearance.Text

namespace Utf8

/-- Why octets are no text. -/
inductive Cause where
  | invalidStart
  | invalidContinuation
  | unexpectedEnd
  deriving DecidableEq, Repr

/-- The octets at positions `start` to `stop - 1` are no text; `first` is the first of them. -/
structure Refusal where
  start : Nat
  stop : Nat
  first : UInt8
  cause : Cause
  deriving DecidableEq, Repr

/-- A character whose first octets are read. -/
structure Unfinished where
  /-- The position of its first octet. -/
  start : Nat
  /-- Its first octet. -/
  first : UInt8
  /-- How many octets are missing. -/
  missing : Nat
  /-- The least octet that may follow. -/
  low : UInt8
  /-- The greatest octet that may follow. -/
  high : UInt8
  /-- The bits read so far. -/
  value : Nat
  deriving DecidableEq, Repr

/-- The character that the octet `b` at `start` begins, if it begins one of two to four
octets. The bounds on the second octet rule out overlong forms, surrogates and code points
above U+10FFFF. -/
def Unfinished.ofLead? (start : Nat) (b : UInt8) : Option Unfinished :=
  if 0xc2 ≤ b && b ≤ 0xdf then some ⟨start, b, 1, 0x80, 0xbf, b.toNat - 0xc0⟩
  else if b = 0xe0 then some ⟨start, b, 2, 0xa0, 0xbf, 0⟩
  else if b = 0xed then some ⟨start, b, 2, 0x80, 0x9f, 0xd⟩
  else if 0xe1 ≤ b && b ≤ 0xef then some ⟨start, b, 2, 0x80, 0xbf, b.toNat - 0xe0⟩
  else if b = 0xf0 then some ⟨start, b, 3, 0x90, 0xbf, 0⟩
  else if 0xf1 ≤ b && b ≤ 0xf3 then some ⟨start, b, 3, 0x80, 0xbf, b.toNat - 0xf0⟩
  else if b = 0xf4 then some ⟨start, b, 3, 0x80, 0x8f, 4⟩
  else none

/-- The character after one more octet. -/
def Unfinished.extend (p : Unfinished) (b : UInt8) : Unfinished :=
  { p with missing := p.missing - 1, low := 0x80, high := 0xbf,
           value := p.value * 64 + (b.toNat - 0x80) }

/-- The characters of the octets from position `pos` on, after those of the character `underway`. -/
def decodeFrom (pos : Nat) (underway : Option Unfinished) :
    List UInt8 → Except Refusal (List Char)
  | [] =>
    match underway with
    | none => .ok []
    | some p => .error ⟨p.start, pos, p.first, .unexpectedEnd⟩
  | b :: bs =>
    match underway with
    | none =>
      if b < 0x80 then (decodeFrom (pos + 1) none bs).map (Char.ofNat b.toNat :: ·)
      else
        match Unfinished.ofLead? pos b with
        | some p => decodeFrom (pos + 1) (some p) bs
        | none => .error ⟨pos, pos + 1, b, .invalidStart⟩
    | some p =>
      if p.low ≤ b && b ≤ p.high then
        if p.missing ≤ 1 then
          (decodeFrom (pos + 1) none bs).map (Char.ofNat (p.extend b).value :: ·)
        else decodeFrom (pos + 1) (some (p.extend b)) bs
      else .error ⟨p.start, pos, p.first, .invalidContinuation⟩

/-- The text that the octets `bs` encode. -/
def decode (bs : List UInt8) : Except Refusal String :=
  (decodeFrom 0 none bs).map String.ofList

/-- The cause in words. -/
def Cause.message : Cause → String
  | .invalidStart => "invalid start byte"
  | .invalidContinuation => "invalid continuation byte"
  | .unexpectedEnd => "unexpected end of data"

end Utf8

/-- Every carriage return, with the line feed after it if there is one, as one line feed. -/
def normalNewlines : List Char → List Char
  | [] => []
  | '\r' :: '\n' :: cs => '\n' :: normalNewlines cs
  | c :: cs => (if c = '\r' then '\n' else c) :: normalNewlines cs

end Clearance.Text
