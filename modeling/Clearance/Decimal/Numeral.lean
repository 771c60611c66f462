import Clearance.Text.Blank
import Clearance.Text.Digit

/-!
# Numbers in texts

A `Numeral` is a number as a text gives it: an integer, a decimal, or one of the words for
what is no real number. `Numeral.ofText?` reads one from a text that may have blanks around
it, a sign, and digits of any script, with single low lines between them. A decimal has digits
on at least one side of its point; the point and the exponent may be missing.

`Numeral.digitsOfText?` reads an integer in the same way, without a point and an exponent, and
in any base up to thirty-six, where letters follow the decimal digits. The bases two, eight
and sixteen may be marked by a zero and a letter before the digits.
-/

namespace Clearance

inductive Numeral where
  | integer (i : Int)
  /-- `digits · 10 ^ exponent`, below zero if `negative`. -/
  | decimal (negative : Bool) (digits : Nat) (exponent : Int)
  | nan
  | infinite (negative : Bool)
  deriving DecidableEq, Repr

namespace Numeral

/-- How many digits an integer in a text has at most, in a base that is no power of two. -/
def limit : Nat := 4300

/-- Whether so many digits in the base are too many. -/
def exceeds (base digits : Nat) : Bool :=
  limit < digits && base &&& (base - 1) != 0

/-- The floating-point number next to a decimal. From `10 ^ 400` on that is infinity, and
below `2 ^ (-1080)` zero. -/
def float (negative : Bool) (digits : Nat) (exponent : Int) : Float :=
  let x : Float :=
    if digits = 0 then 0.0
    else if 400 < exponent then 1.0 / 0.0
    else if (digits.log2 : Int) + 1081 < -3 * exponent then 0.0
    else Float.ofScientific digits (exponent < 0) exponent.natAbs
  if negative then -x else x

/-- The number whose digits in the base are these. -/
def ofDigits (base : Nat) (ds : List Nat) : Nat :=
  ds.foldl (fun n d => n * base + d) 0

/-- The number that the character stands for as a digit in the base. -/
def digitValue? (base : Nat) (c : Char) : Option Nat :=
  let letter := c.toLower.toNat
  let d? := (Text.digitValue? c).or
    (if 'a'.toNat ≤ letter && letter ≤ 'z'.toNat then some (letter - 'a'.toNat + 10) else none)
  d?.filter (· < base)

/-- The characters without the blanks at both ends. -/
def trimmed (cs : List Char) : List Char :=
  ((cs.dropWhile Text.isBlank).reverse.dropWhile Text.isBlank).reverse

/-- Whether the number is below zero, and what follows its sign. -/
def sign : List Char → Bool × List Char
  | '-' :: cs => (true, cs)
  | '+' :: cs => (false, cs)
  | cs => (false, cs)

/-- The digits in the base that follow a digit, and what follows them. A low line counts for
nothing if a digit follows it. -/
def moreDigits (base : Nat) : List Char → List Nat × List Char
  | '_' :: c :: cs =>
    match digitValue? base c with
    | some d => let (ds, rest) := moreDigits base cs; (d :: ds, rest)
    | none => ([], '_' :: c :: cs)
  | c :: cs =>
    match digitValue? base c with
    | some d => let (ds, rest) := moreDigits base cs; (d :: ds, rest)
    | none => ([], c :: cs)
  | [] => ([], [])

/-- The digits in the base at the start, and what follows them. -/
def digits (base : Nat) : List Char → List Nat × List Char
  | c :: cs =>
    if (digitValue? base c).isSome then moreDigits base (c :: cs) else ([], c :: cs)
  | [] => ([], [])

/-- The base that a letter after a zero marks. -/
def markedBase? (c : Char) : Option Nat :=
  match c.toLower with
  | 'x' => some 16
  | 'o' => some 8
  | 'b' => some 2
  | _ => none

/-- The base of the digits, and the digits without the mark of the base and a low line after
it. Base zero is the base that is marked, and ten without a mark. -/
def unmarked (base : Nat) (cs : List Char) : Nat × List Char :=
  let plain := (if base = 0 then 10 else base, cs)
  match cs with
  | '0' :: c :: rest =>
    match markedBase? c with
    | none => plain
    | some b =>
      if base = 0 || base = b then (b, if rest.head? = some '_' then rest.tail else rest)
      else plain
  | _ => plain

/-- The integer that the text has in the base: whether it is below zero, the base of its
digits, and the digits. Where the base is left to the text, nothing but zero starts with a
zero. -/
def digitsOfText? (base : Nat) (s : String) : Option (Bool × Nat × List Nat) :=
  let (negative, cs) := sign (trimmed s.toList)
  let (b, cs) := unmarked base cs
  match digits b cs with
  | (d :: ds, []) =>
    if base = 0 && b = 10 && d = 0 && ds.any (· ≠ 0) then none
    else some (negative, b, d :: ds)
  | _ => none

/-- The exponent, if the rest of the text is one or is empty. -/
def exponent? : List Char → Option Int
  | [] => some 0
  | c :: cs =>
    if c = 'e' || c = 'E' then
      let (negative, cs) := sign cs
      match digits 10 cs with
      | (d :: ds, []) =>
        let n : Int := ofDigits 10 (d :: ds)
        some (if negative then -n else n)
      | _ => none
    else none

/-- The digits of a fraction, if there is a point, and what follows them. -/
def fraction : List Char → List Nat × List Char
  | '.' :: cs => digits 10 cs
  | cs => ([], cs)

/-- The number in the text. -/
def ofText? (s : String) : Option Numeral :=
  let (negative, cs) := sign (trimmed s.toList)
  let word := String.ofList (cs.map Char.toLower)
  if word = "nan" then some .nan
  else if word = "inf" || word = "infinity" then some (.infinite negative)
  else
    let (whole, rest) := digits 10 cs
    let (part, rest) := fraction rest
    if whole.isEmpty && part.isEmpty then none
    else (exponent? rest).map fun e =>
      .decimal negative (ofDigits 10 (whole ++ part)) (e - part.length)

end Numeral

end Clearance
