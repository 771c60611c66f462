/-!
# Shortest decimals

The decimal with the fewest digits that reads back as a given binary floating-point number.

`Real.ofFloat` takes a number apart into a sign, a significand `m` and an exponent `q`, so
that its magnitude is `m · 2 ^ q`. The reals that round to it form the interval from half a
step below to half a step above (a quarter below where the step doubles), with its ends if
`m` is even; `Span` holds that interval over a common denominator. For one digit, two digits
and so on `shortest` tests the value's two neighbours on the grid of decimals with that many
digits; the first grid with a neighbour inside gives the answer, of two neighbours inside the
nearer one, and of two equally near the even one.
-/

namespace Clearance.Decimal

/-- A floating-point number taken apart. -/
inductive Real where
  | nan
  | infinite (negative : Bool)
  /-- The magnitude is `m · 2 ^ q`; the numbers of the same sign next to it are a step
  `2 ^ q` away, but the one below is half a step away if `narrow`. -/
  | finite (negative : Bool) (m : Nat) (q : Int) (narrow : Bool)
  deriving DecidableEq, Repr

/-- The parts of the double-precision number `x`. -/
def Real.ofFloat (x : Float) : Real :=
  let bits : Nat := x.toBits.toNat
  let negative : Bool := bits >>> 63 % 2 = 1
  let exponent : Nat := bits >>> 52 % 0x800
  let fraction : Nat := bits % 0x10000000000000
  if exponent = 0x7ff then if fraction = 0 then .infinite negative else .nan
  else if exponent = 0 then .finite negative fraction (-1074) false
  else .finite negative (0x10000000000000 + fraction) (exponent - 1075)
    (fraction = 0 && exponent > 1)

/-- Whether the number is the integer `i`. -/
def Real.isInt : Real → Int → Bool
  | .finite negative m q _, i =>
    (m <<< q.toNat == i.natAbs <<< (-q).toNat) && (i == 0 || negative == decide (i < 0))
  | _, _ => false

/-- A positive real `value / unit` and the interval from `low / unit` to `high / unit` of
the reals that round to it; the ends belong to it if `closed`. -/
structure Span where
  value : Nat
  low : Nat
  high : Nat
  unit : Nat
  closed : Bool
  deriving DecidableEq, Repr

/-- The span of `m · 2 ^ q`. -/
def Span.ofBinary (m : Nat) (q : Int) (narrow : Bool) : Span :=
  let step := 1 <<< q.toNat
  { value := 4 * m * step, low := (4 * m - if narrow then 1 else 2) * step,
    high := (4 * m + 2) * step, unit := 4 <<< (-q).toNat, closed := m % 2 = 0 }

/-- The number `d · 10 ^ k` over the unit of `s`, all numbers of `s` scaled alike: the two
sides of a comparison of `d · 10 ^ k` with `x / s.unit`. -/
def Span.sides (s : Span) (d : Nat) (k : Int) (x : Nat) : Nat × Nat :=
  (d * Nat.pow 10 k.toNat * s.unit, x * Nat.pow 10 (-k).toNat)

/-- Whether `d · 10 ^ k` lies in the interval. -/
def Span.holds (s : Span) (d : Nat) (k : Int) : Bool :=
  let (d', low) := s.sides d k s.low
  let (_, high) := s.sides d k s.high
  if s.closed then low ≤ d' && d' ≤ high else low < d' && d' < high

/-- The least `e` from -400 on with `s.value / s.unit < 10 ^ e`. -/
def Span.magnitude (s : Span) : Int :=
  let es := (List.range 800).map fun (i : Nat) => (i : Int) - 400
  (es.find? fun e => let (p, v) := s.sides 1 e s.value; v < p).getD 0

/-- The grid point next to the value among the decimals with `digits` digits, if one of the
two neighbours reads back. -/
def Span.neighbour? (s : Span) (digits : Nat) : Option (Nat × Int) :=
  let k := s.magnitude - digits
  let d := s.value * Nat.pow 10 (-k).toNat / (s.unit * Nat.pow 10 k.toNat)
  let (below, v) := s.sides d k s.value
  let (above, _) := s.sides (d + 1) k s.value
  match s.holds d k, s.holds (d + 1) k with
  | true, true =>
    if v - below < above - v then some (d, k)
    else if above - v < v - below then some (d + 1, k)
    else some (if d % 2 = 0 then d else d + 1, k)
  | true, false => some (d, k)
  | false, true => some (d + 1, k)
  | false, false => none

/-- `d · 10 ^ k` without trailing zeros in `d`, looking at no more than `fuel` digits. -/
def dropZeros (fuel d : Nat) (k : Int) : Nat × Int :=
  match fuel with
  | 0 => (d, k)
  | fuel + 1 => if d ≠ 0 ∧ d % 10 = 0 then dropZeros fuel (d / 10) (k + 1) else (d, k)

/-- The shortest decimal `d · 10 ^ k` that reads back as `m · 2 ^ q`, as the pair of `d` and
`k`. Seventeen digits are always enough for a double-precision number. -/
def shortest (m : Nat) (q : Int) (narrow : Bool) : Nat × Int :=
  let s := Span.ofBinary m q narrow
  let digits := (List.range 17).map (· + 1)
  let (d, k) := (digits.findSome? s.neighbour?).getD (0, 0)
  dropZeros 20 d k

/-- How a real is laid out. -/
structure Layout where
  /-- A number below `10 ^ (least - 1)` has an exponent. -/
  least : Int
  /-- A number from `10 ^ greatest` on has an exponent. -/
  greatest : Int
  /-- How many digits an exponent has at least. -/
  exponentDigits : Nat
  /-- What follows an integer. -/
  integral : String
  nan : String
  infinity : String
  deriving Repr

/-- The digits `ds` of a number of magnitude `p` (the value is `0.ds · 10 ^ p`). -/
def Layout.digits (l : Layout) (ds : String) (p : Int) : String :=
  let n : Int := ds.length
  if p < l.least || l.greatest < p then
    let e := p - 1
    let es := toString e.natAbs
    let point := if ds.length = 1 then ds else (ds.take 1).toString ++ "." ++ (ds.drop 1).toString
    point ++ "e" ++ (if e < 0 then "-" else "+") ++
      String.ofList (List.replicate (l.exponentDigits - es.length) '0') ++ es
  else if p ≤ 0 then "0." ++ String.ofList (List.replicate (-p).toNat '0') ++ ds
  else if n ≤ p then ds ++ String.ofList (List.replicate (p - n).toNat '0') ++ l.integral
  else (ds.take p.toNat).toString ++ "." ++ (ds.drop p.toNat).toString

/-- The text of the number `x`. -/
def Layout.written (l : Layout) (x : Float) : String :=
  match Real.ofFloat x with
  | .nan => l.nan
  | .infinite negative => (if negative then "-" else "") ++ l.infinity
  | .finite negative m q narrow =>
    let sign := if negative then "-" else ""
    if m = 0 then sign ++ "0" ++ l.integral
    else
      let (d, k) := shortest m q narrow
      let ds := toString d
      sign ++ l.digits ds (ds.length + k)

/-- Positional from 0.0001 up to sixteen digits before the point, with `.0` after an integer;
an exponent has a sign and at least two digits. -/
def plain : Layout :=
  { least := -3, greatest := 16, exponentDigits := 2, integral := ".0", nan := "nan",
    infinity := "inf" }

end Clearance.Decimal
