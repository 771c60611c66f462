import Clearance.Text.CodeUnit
import Clearance.Text.Quoted
import Clearance.Text.Utf8

/-!
# Encodings by name

Octets are read as a text in an `Encoding`, which is found by any of its names, whatever the
case of the letters and the marks between the words (`Encoding.ofName?`). A mark at the front
of the octets may say in which order the octets of a unit stand, and is no part of the text
(`Encoding.settle`). Most encodings refuse some octets. A `Remedy` says what the text has in
place of such octets; reading goes on behind them (`Encoding.mend`).
-/

namespace Clearance.Text

inductive Encoding where
  | utf8
  /-- UTF-8 with a mark at the front, or without. -/
  | markedUtf8
  /-- UTF-16 in the order, or in the one that a mark at the front tells. -/
  | utf16 (order : Option ByteOrder)
  /-- UTF-32 in the order, or in the one that a mark at the front tells. -/
  | utf32 (order : Option ByteOrder)
  | ascii
  | latin1
  | windows1252
  deriving DecidableEq, Repr

/-- Why octets are no text in an encoding. -/
inductive Encoding.Cause where
  | utf8 (cause : Utf8.Cause)
  | codeUnit (cause : CodeUnit.Cause)
  | beyondAscii
  /-- No character has the octet as its number. -/
  | unassigned
  deriving DecidableEq, Repr

/-- The octets at positions `start` to `stop - 1` are no text in the encoding `codec`; `first`
is the first of them. -/
structure Encoding.Refusal where
  codec : String
  start : Nat
  stop : Nat
  first : UInt8
  cause : Encoding.Cause
  deriving DecidableEq, Repr

/-- What a text has in place of octets that are refused. -/
inductive Remedy where
  /-- Nothing. -/
  | omission
  /-- The replacement character, once. -/
  | replacement
  /-- Each octet in hexadecimal digits. -/
  | escape
  deriving DecidableEq, Repr

/-- The text in place of the octets. -/
def Remedy.apply (bs : List UInt8) : Remedy → List Char
  | .omission => []
  | .replacement => ['\ufffd']
  | .escape => bs.flatMap fun b => '\\' :: 'x' :: hexDigits 2 b.toNat

namespace Encoding

def Refusal.ofUtf8 (r : Utf8.Refusal) : Refusal :=
  ⟨"utf-8", r.start, r.stop, r.first, .utf8 r.cause⟩

/-- The refusal of units of `width` bits in the order. -/
def Refusal.ofCodeUnit (width : String) (order : ByteOrder) (r : CodeUnit.Refusal) : Refusal :=
  let suffix := match order with
    | .little => "-le"
    | .big => "-be"
  ⟨"utf-" ++ width ++ suffix, r.start, r.stop, r.first, .codeUnit r.cause⟩

/-- Each encoding with its names. The first names of an encoding, up to the number, are those
that it is best known by. -/
def table : List (Encoding × Nat × List String) :=
  [(.utf8, 2, ["utf_8", "utf8", "u8", "utf", "utf8_ucs2", "utf8_ucs4", "cp65001"]),
   (.markedUtf8, 0, ["utf_8_sig"]),
   (.utf16 none, 2, ["utf_16", "utf16", "u16"]),
   (.utf16 (some .little), 0, ["utf_16_le", "utf_16le", "unicodelittleunmarked"]),
   (.utf16 (some .big), 0, ["utf_16_be", "utf_16be", "unicodebigunmarked"]),
   (.utf32 none, 2, ["utf_32", "utf32", "u32"]),
   (.utf32 (some .little), 0, ["utf_32_le", "utf_32le"]),
   (.utf32 (some .big), 0, ["utf_32_be", "utf_32be"]),
   (.ascii, 2, ["ascii", "us_ascii", "us", "646", "ansi_x3.4_1968", "ansi_x3_4_1968",
      "ansi_x3.4_1986", "cp367", "csascii", "ibm367", "iso646_us", "iso_646.irv_1991",
      "iso_ir_6"]),
   (.latin1, 4, ["latin_1", "latin1", "iso_8859_1", "iso8859_1", "latin", "l1", "iso8859",
      "8859", "cp819", "csisolatin1", "ibm819", "iso_8859_1_1987", "iso_ir_100"]),
   (.windows1252, 0, ["cp1252", "1252", "windows_1252"])]

/-- Names of encodings of octets as octets, which no text is read in. -/
def octetNames : List String :=
  ["base64_codec", "base64", "base_64", "bz2_codec", "bz2", "hex_codec", "hex", "quopri_codec",
   "quopri", "quoted_printable", "quotedprintable", "rot_13", "rot13", "uu_codec", "uu",
   "zlib_codec", "zip", "zlib"]

/-- The words of a name with a low line between them, in small letters. -/
def normalName (name : String) : String :=
  let isPart (c : Char) : Bool := c.isAlphanum || c = '.'
  let words := (name.toList.splitBy fun c d => isPart c == isPart d).filter (·.all isPart)
  "_".intercalate (words.map fun w => String.ofList (w.map Char.toLower))

/-- The encoding of the name. -/
def ofName? (name : String) : Option Encoding :=
  (table.find? fun (_, _, names) => names.contains (normalName name)).map (·.1)

/-- Whether the name is one that its encoding is best known by. -/
def isWellKnown (name : String) : Bool :=
  table.any fun (_, n, names) => (names.take n).contains (normalName name)

/-- Whether the name is of an encoding of octets as octets. -/
def isOfOctets (name : String) : Bool :=
  octetNames.contains (normalName name)

/-- The characters of the octets from 0x80 to 0x9f in the code page 1252; a zero stands where
there is none. -/
def windows1252Characters : List Nat :=
  [0x20ac, 0, 0x201a, 0x192, 0x201e, 0x2026, 0x2020, 0x2021,
   0x2c6, 0x2030, 0x160, 0x2039, 0x152, 0, 0x17d, 0,
   0, 0x2018, 0x2019, 0x201c, 0x201d, 0x2022, 0x2013, 0x2014,
   0x2dc, 0x2122, 0x161, 0x203a, 0x153, 0, 0x17e, 0x178]

/-- The character that is one octet in the encoding. -/
def single? (e : Encoding) (b : UInt8) : Option Char :=
  match e with
  | .ascii => if b < 0x80 then some (Char.ofNat b.toNat) else none
  | .windows1252 =>
    if 0x80 ≤ b && b < 0xa0 then
      ((windows1252Characters[b.toNat - 0x80]?).filter (· ≠ 0)).map Char.ofNat
    else some (Char.ofNat b.toNat)
  | _ => some (Char.ofNat b.toNat)

/-- The characters of the octets from position `pos` on where each is one octet. -/
def decodeEach (e : Encoding) (codec : String) (cause : Cause) (pos : Nat) :
    List UInt8 → Except Refusal (List Char)
  | [] => .ok []
  | b :: bs =>
    match e.single? b with
    | some c => (decodeEach e codec cause (pos + 1) bs).map (c :: ·)
    | none => .error ⟨codec, pos, pos + 1, b, cause⟩

/-- The characters that the octets from position `pos` on encode, behind a mark if the encoding
has one. -/
def decodeFrom (e : Encoding) (pos : Nat) (bs : List UInt8) : Except Refusal (List Char) :=
  match e with
  | .utf8 | .markedUtf8 => (Utf8.decodeFrom pos none bs).mapError .ofUtf8
  | .utf16 order =>
    let order := order.getD .little
    (CodeUnit.decodePairs order pos bs).mapError (.ofCodeUnit "16" order)
  | .utf32 order =>
    let order := order.getD .little
    (CodeUnit.decodeSingles order pos bs).mapError (.ofCodeUnit "32" order)
  | .ascii => decodeEach e "ascii" .beyondAscii pos bs
  | .latin1 => decodeEach e "latin-1" .unassigned pos bs
  | .windows1252 => decodeEach e "charmap" .unassigned pos bs

/-- The encoding that a mark at the front tells, where the text begins, and its octets. The
positions in UTF-8 are counted from behind the mark. -/
def settle (e : Encoding) (bs : List UInt8) : Encoding × Nat × List UInt8 :=
  match e, bs with
  | .markedUtf8, 0xef :: 0xbb :: 0xbf :: rest => (.utf8, 0, rest)
  | .utf16 none, 0xff :: 0xfe :: rest => (.utf16 (some .little), 2, rest)
  | .utf16 none, 0xfe :: 0xff :: rest => (.utf16 (some .big), 2, rest)
  | .utf32 none, 0xff :: 0xfe :: 0 :: 0 :: rest => (.utf32 (some .little), 4, rest)
  | .utf32 none, 0 :: 0 :: 0xfe :: 0xff :: rest => (.utf32 (some .big), 4, rest)
  | e, bs => (e, 0, bs)

/-- The characters that the octets encode. -/
def decode (e : Encoding) (bs : List UInt8) : Except Refusal (List Char) :=
  let (e, pos, bs) := e.settle bs
  e.decodeFrom pos bs

/-- The characters of the octets with the remedy for refused ones, in `turns` turns at most. -/
def mendWithin (e : Encoding) (remedy : Remedy) : (turns : Nat) → List UInt8 → List Char
  | 0, _ => []
  | n + 1, bs =>
    match e.decodeFrom 0 bs with
    | .ok cs => cs
    | .error r =>
      let before := (e.decodeFrom 0 (bs.take r.start)).toOption.getD []
      let faulty := (bs.take r.stop).drop r.start
      before ++ remedy.apply faulty ++ mendWithin e remedy n (bs.drop r.stop)

/-- The characters of the octets with the remedy for refused ones. A refusal is about one octet
at least, so there are no more turns than octets and one. -/
def mend (e : Encoding) (remedy : Remedy) (bs : List UInt8) : List Char :=
  let (e, _, bs) := e.settle bs
  mendWithin e remedy (bs.length + 1) bs

end Encoding

end Clearance.Text
