/-!
# Texts in units of two or four octets

UTF-16 has a unit of two octets for most characters and two units, a high surrogate and a low
one, for the characters beyond U+FFFF (`CodeUnit.decodePairs`). UTF-32 has a unit of four octets
for every character (`CodeUnit.decodeSingles`). The octets of a unit stand in a `ByteOrder`.

A refusal names the octets at fault by their positions: a unit that is no character, a high
surrogate without a low one, or octets at the end that are too few for a unit.
-/

namespace Clearance.Text

inductive ByteOrder where
  /-- The least octet is the first. -/
  | little
  /-- The greatest octet is the first. -/
  | big
  deriving DecidableEq, Repr

namespace CodeUnit

/-- Why units are no text. -/
inductive Cause where
  /-- Octets at the end are too few for a unit. -/
  | truncated
  /-- There is nothing after a high surrogate. -/
  | unexpectedEnd
  /-- A low surrogate is without a high one before it. -/
  | lowSurrogate
  /-- A high surrogate is without a low one after it. -/
  | highSurrogate
  /-- A unit of four octets is a surrogate. -/
  | surrogate
  /-- A unit is beyond U+10FFFF. -/
  | beyondUnicode
  deriving DecidableEq, Repr

/-- The octets at positions `start` to `stop - 1` are no text; `first` is the first of them. -/
structure Refusal where
  start : Nat
  stop : Nat
  first : UInt8
  cause : Cause
  deriving DecidableEq, Repr

/-- The number of the unit that the octets are. -/
def number (order : ByteOrder) (bs : List UInt8) : Nat :=
  let digits := match order with
    | .little => bs.reverse
    | .big => bs
  digits.foldl (fun n b => n * 256 + b.toNat) 0

def isHigh (n : Nat) : Bool := 0xd800 ≤ n && n < 0xdc00

def isLow (n : Nat) : Bool := 0xdc00 ≤ n && n < 0xe000

/-- The number of the character that the surrogates are. -/
def combined (high low : Nat) : Nat :=
  0x10000 + (high - 0xd800) * 0x400 + (low - 0xdc00)

/-- The characters of the octets from position `pos` on, in units of two. -/
def decodePairs (order : ByteOrder) (pos : Nat) : List UInt8 → Except Refusal (List Char)
  | [] => .ok []
  | [a] => .error ⟨pos, pos + 1, a, .truncated⟩
  | a :: b :: bs =>
    let n := number order [a, b]
    if isLow n then .error ⟨pos, pos + 2, a, .lowSurrogate⟩
    else if isHigh n then
      match bs with
      | c :: d :: rest =>
        let low := number order [c, d]
        if isLow low then
          (decodePairs order (pos + 4) rest).map (Char.ofNat (combined n low) :: ·)
        else .error ⟨pos, pos + 2, a, .highSurrogate⟩
      | rest => .error ⟨pos, pos + 2 + rest.length, a, .unexpectedEnd⟩
    else (decodePairs order (pos + 2) bs).map (Char.ofNat n :: ·)

/-- The characters of the octets from position `pos` on, in units of four. -/
def decodeSingles (order : ByteOrder) (pos : Nat) : List UInt8 → Except Refusal (List Char)
  | [] => .ok []
  | a :: b :: c :: d :: bs =>
    let n := number order [a, b, c, d]
    if isHigh n || isLow n then .error ⟨pos, pos + 4, a, .surrogate⟩
    else if 0x110000 ≤ n then .error ⟨pos, pos + 4, a, .beyondUnicode⟩
    else (decodeSingles order (pos + 4) bs).map (Char.ofNat n :: ·)
  | a :: rest => .error ⟨pos, pos + 1 + rest.length, a, .truncated⟩

/-- The cause in words. -/
def Cause.message : Cause → String
  | .truncated => "truncated data"
  | .unexpectedEnd => "unexpected end of data"
  | .lowSurrogate => "illegal encoding"
  | .highSurrogate => "illegal UTF-16 surrogate"
  | .surrogate => "code point in surrogate code point range(0xd800, 0xe000)"
  | .beyondUnicode => "code point not in range(0x110000)"

end CodeUnit

end Clearance.Text
