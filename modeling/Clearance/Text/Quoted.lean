import Clearance.Text.Printable

/-!
# Quoted texts and octets

How a text or a string of octets is written inside another text. `quoted` puts a text between
quote marks: the mark is the apostrophe, unless the text holds an apostrophe and no double
quote, and inside the marks the reverse solidus, the mark, tab, line feed and carriage return
are escaped by a reverse solidus, other characters that are not printable by their code point
in two, four or eight hexadecimal digits. `quotedOctets` does the same octet by octet, where
only the graphic characters of ASCII and the space stand for themselves.
-/

namespace Clearance.Text

/-- `n` in `width` hexadecimal digits, high digits dropped. -/
def hexDigits (width n : Nat) : List Char :=
  (List.range width).reverse.map fun i => Nat.digitChar (n >>> (4 * i) % 16)

/-- The double quote if `cs` holds an apostrophe and no double quote, else the apostrophe. -/
def quoteMark (cs : List Char) : Char :=
  if cs.contains '\x27' && !cs.contains '"' then '"' else '\x27'

/-- The escapes that do not depend on what is printable. -/
def shortEscape? (mark c : Char) : Option (List Char) :=
  if c = '\\' || c = mark then some ['\\', c]
  else if c = '\n' then some ['\\', 'n']
  else if c = '\r' then some ['\\', 'r']
  else if c = '\t' then some ['\\', 't']
  else none

/-- The code point of `c` in as many hexadecimal digits as it needs of two, four and eight. -/
def codePointEscape (c : Char) : List Char :=
  if c.toNat ≤ 0xff then '\\' :: 'x' :: hexDigits 2 c.toNat
  else if c.toNat ≤ 0xffff then '\\' :: 'u' :: hexDigits 4 c.toNat
  else '\\' :: 'U' :: hexDigits 8 c.toNat

/-- What stands for the character `c` between two `mark`s. -/
def escaped (mark c : Char) : List Char :=
  (shortEscape? mark c).getD (if isPrintable c then [c] else codePointEscape c)

/-- The text `s` between quote marks. -/
def quoted (s : String) : String :=
  let mark := quoteMark s.toList
  String.ofList (mark :: s.toList.flatMap (escaped mark) ++ [mark])

/-- What stands for the octet with character `c` between two `mark`s. -/
def escapedOctet (mark c : Char) : List Char :=
  (shortEscape? mark c).getD
    (if 0x20 ≤ c.toNat && c.toNat < 0x7f then [c] else '\\' :: 'x' :: hexDigits 2 c.toNat)

/-- The octets `bs` between quote marks, after the letter that tells them from a text. -/
def quotedOctets (bs : List UInt8) : String :=
  let cs := bs.map fun b => Char.ofNat b.toNat
  let mark := quoteMark cs
  String.ofList ('b' :: mark :: cs.flatMap (escapedOctet mark) ++ [mark])

/-- The same for octets that may change: an apostrophe among them is escaped whatever the
mark. -/
def quotedBuffer (bs : List UInt8) : String :=
  let cs := bs.map fun b => Char.ofNat b.toNat
  let mark := quoteMark cs
  String.ofList ('b' :: mark :: cs.flatMap (escapedOctet '\x27') ++ [mark])

end Clearance.Text
