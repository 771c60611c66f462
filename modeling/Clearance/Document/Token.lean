import Clearance.Document.Basic

/-!
# Tokens of a document

The text of a document is a sequence of tokens with blanks between them: brackets, colons,
commas, words, numbers and quoted texts. The words are `null`, `true` and `false`, and
`NaN`, `Infinity` and `-Infinity` among the numbers. A number has no leading zero and no
leading plus, and digits on both sides of a point; before the point there are no more than
`Numeral.limit` digits. Inside quotes no control character stands for itself, and an escaped
surrogate has to be half of a pair.

`Token.ofText?` is the sequence of tokens of a text; it is `none` if some part of the text is
no token.
-/

namespace Clearance

inductive Token where
  | openList
  | closeList
  | openObject
  | closeObject
  | colon
  | comma
  /-- A document without parts. -/
  | plain (document : Document)
  | text (s : String)

namespace Token

/-- The number that the hexadecimal digit is. -/
def hexValue? (c : Char) : Option Nat :=
  if c.isDigit then some (c.toNat - '0'.toNat)
  else if 'a' ≤ c && c ≤ 'f' then some (c.toNat - 'a'.toNat + 10)
  else if 'A' ≤ c && c ≤ 'F' then some (c.toNat - 'A'.toNat + 10)
  else none

/-- The number in four hexadecimal digits. -/
def codeUnit? (a b c d : Char) : Option Nat := do
  return (((← hexValue? a) * 16 + (← hexValue? b)) * 16 + (← hexValue? c)) * 16 + (← hexValue? d)

/-- What the letter after a reverse solidus stands for. -/
def escape? : Char → Option Char
  | '"' => some '"'
  | '\\' => some '\\'
  | '/' => some '/'
  | 'b' => some '\x08'
  | 'f' => some '\x0c'
  | 'n' => some '\n'
  | 'r' => some '\r'
  | 't' => some '\t'
  | _ => none

/-- Whether a code unit is the first half of a pair. -/
def isHigh (u : Nat) : Bool := 0xd800 ≤ u && u < 0xdc00

/-- Whether a code unit is the second half of a pair. -/
def isLow (u : Nat) : Bool := 0xdc00 ≤ u && u < 0xe000

/-- The rest of a quoted text: the characters up to the closing quote, after those in `read`,
the last one first, and what follows the quote. -/
def quotedText? (read : List Char) : List Char → Option (String × List Char)
  | [] => none
  | '"' :: cs => some (String.ofList read.reverse, cs)
  | '\\' :: 'u' :: a :: b :: c :: d :: cs =>
    match codeUnit? a b c d with
    | none => none
    | some u =>
      if isHigh u then
        match cs with
        | '\\' :: 'u' :: a' :: b' :: c' :: d' :: cs' =>
          match codeUnit? a' b' c' d' with
          | none => none
          | some v =>
            if isLow v then
              quotedText? (Char.ofNat (0x10000 + (u - 0xd800) * 0x400 + (v - 0xdc00)) :: read) cs'
            else none
        | _ => none
      else if isLow u then none
      else quotedText? (Char.ofNat u :: read) cs
  | '\\' :: c :: cs =>
    match escape? c with
    | none => none
    | some e => quotedText? (e :: read) cs
  | c :: cs => if c = '\\' || c.toNat < 0x20 then none else quotedText? (c :: read) cs

theorem length_quotedText? {read cs rest : List Char} {s : String}
    (h : quotedText? read cs = some (s, rest)) : rest.length < cs.length := by
  fun_induction quotedText? read cs <;> simp_all <;> omega

/-- The digits at the start, and what follows them. -/
def digits (cs : List Char) : List Char × List Char :=
  (cs.takeWhile Char.isDigit, cs.dropWhile Char.isDigit)

/-- The number that decimal digits are. -/
def number (ds : List Char) : Nat :=
  ds.foldl (fun n d => n * 10 + (d.toNat - '0'.toNat)) 0

/-- The point and the digits after it, if there is a point. -/
def fraction? : List Char → Option (Option (List Char) × List Char)
  | '.' :: cs => let (ds, rest) := digits cs; if ds.isEmpty then none else some (some ds, rest)
  | cs => some (none, cs)

/-- The digits of an exponent after its sign. -/
def exponentDigits? (negative : Bool) (cs : List Char) : Option (Option Int × List Char) :=
  let (ds, rest) := digits cs
  if ds.isEmpty then none
  else some (some (if negative then -(number ds : Int) else number ds), rest)

/-- The exponent, if there is one. -/
def exponent? : List Char → Option (Option Int × List Char)
  | c :: cs =>
    if c = 'e' || c = 'E' then
      match cs with
      | '+' :: cs => exponentDigits? false cs
      | '-' :: cs => exponentDigits? true cs
      | cs => exponentDigits? false cs
    else some (none, c :: cs)
  | [] => some (none, [])

/-- The number at the start of the text, after its sign. -/
def numeral? (negative : Bool) (cs : List Char) : Option (Numeral × List Char) := do
  let (whole, rest) := digits cs
  if whole.isEmpty || (whole.head? = some '0' && whole.length ≠ 1) ||
      Numeral.limit < whole.length then none
  else
    let (fraction, rest) ← fraction? rest
    let (exponent, rest) ← exponent? rest
    match fraction, exponent with
    | none, none =>
      let n : Int := number whole
      return (.integer (if negative then -n else n), rest)
    | fraction, exponent =>
      let fraction := fraction.getD []
      return (.decimal negative (number (whole ++ fraction))
        (exponent.getD 0 - fraction.length), rest)

/-- What follows the word at the start of the text. -/
def after? (word cs : List Char) : Option (List Char) :=
  if word.isPrefixOf cs then some (cs.drop word.length) else none

/-- The words and what they stand for. -/
def words : List (List Char × Document) :=
  [("null".toList, .null), ("true".toList, .bool true), ("false".toList, .bool false),
    ("NaN".toList, .number .nan), ("Infinity".toList, .number (.infinite false)),
    ("-Infinity".toList, .number (.infinite true))]

/-- The word at the start of the text. -/
def word? (cs : List Char) : Option (Document × List Char) :=
  words.findSome? fun (w, d) => (after? w cs).map (d, ·)

/-- The signed number at the start of the text. -/
def signed? : List Char → Option (Numeral × List Char)
  | '-' :: cs => numeral? true cs
  | cs => numeral? false cs

/-- The token at the start of a text that starts with no blank, and what follows it. -/
def first? : List Char → Option (Token × List Char)
  | '[' :: cs => some (.openList, cs)
  | ']' :: cs => some (.closeList, cs)
  | '\x7b' :: cs => some (.openObject, cs)
  | '\x7d' :: cs => some (.closeObject, cs)
  | ':' :: cs => some (.colon, cs)
  | ',' :: cs => some (.comma, cs)
  | '"' :: cs => (quotedText? [] cs).map fun (s, rest) => (.text s, rest)
  | cs =>
    match word? cs with
    | some (d, rest) => some (.plain d, rest)
    | none => (signed? cs).map fun (n, rest) => (.plain (.number n), rest)

theorem length_digits (cs : List Char) :
    (digits cs).2.length + (digits cs).1.length = cs.length := by
  simp only [digits]
  rw [Nat.add_comm, ← List.length_append, List.takeWhile_append_dropWhile]

theorem length_fraction? {cs rest : List Char} {ds : Option (List Char)}
    (h : fraction? cs = some (ds, rest)) : rest.length ≤ cs.length := by
  unfold fraction? at h
  split at h
  · rename_i cs
    have := length_digits cs
    dsimp only at h
    split at h
    · contradiction
    · obtain ⟨-, rfl⟩ := Prod.mk.inj (Option.some.inj h)
      rw [List.length_cons]
      omega
  · obtain ⟨-, rfl⟩ := Prod.mk.inj (Option.some.inj h)
    exact Nat.le_refl _

theorem length_exponentDigits? {negative : Bool} {cs rest : List Char} {e : Option Int}
    (h : exponentDigits? negative cs = some (e, rest)) : rest.length ≤ cs.length := by
  have := length_digits cs
  dsimp only [exponentDigits?] at h
  split at h
  · contradiction
  · obtain ⟨-, rfl⟩ := Prod.mk.inj (Option.some.inj h)
    omega

theorem length_exponent? {cs rest : List Char} {e : Option Int}
    (h : exponent? cs = some (e, rest)) : rest.length ≤ cs.length := by
  unfold exponent? at h
  split at h
  · split at h
    · split at h
      · exact Nat.le_succ_of_le (Nat.le_succ_of_le (length_exponentDigits? h))
      · exact Nat.le_succ_of_le (Nat.le_succ_of_le (length_exponentDigits? h))
      · exact Nat.le_succ_of_le (length_exponentDigits? h)
    · obtain ⟨-, rfl⟩ := Prod.mk.inj (Option.some.inj h)
      exact Nat.le_refl _
  · obtain ⟨-, rfl⟩ := Prod.mk.inj (Option.some.inj h)
    exact Nat.le_refl _

theorem length_numeral? {negative : Bool} {cs rest : List Char} {n : Numeral}
    (h : numeral? negative cs = some (n, rest)) : rest.length < cs.length := by
  have hd := length_digits cs
  simp only [numeral?] at h
  split at h
  · simp at h
  · rename_i hw
    simp only [Option.bind_eq_bind, Option.bind_eq_some_iff] at h
    obtain ⟨⟨f, r⟩, hf, ⟨e, r'⟩, he, h⟩ := h
    have hf : r.length ≤ _ := length_fraction? hf
    have he : r'.length ≤ r.length := length_exponent? he
    have hw : 0 < (digits cs).1.length := by
      rcases h : (digits cs).1 with _ | _ <;> simp_all
    split at h <;> (simp at h; obtain ⟨-, rfl⟩ := h; omega)

theorem length_after? {word cs rest : List Char} (hw : word ≠ [])
    (h : after? word cs = some rest) : rest.length < cs.length := by
  simp only [after?] at h
  split at h
  · rename_i hp
    have := (List.isPrefixOf_iff_prefix.1 hp).length_le
    have := List.length_pos_iff.2 hw
    simp at h
    subst h
    simp
    omega
  · simp at h

theorem length_word? {cs rest : List Char} {d : Document}
    (h : word? cs = some (d, rest)) : rest.length < cs.length := by
  obtain ⟨⟨w, d'⟩, hw, h⟩ := List.exists_of_findSome?_eq_some h
  simp only [Option.map_eq_some_iff, Prod.mk.injEq] at h
  obtain ⟨_, ha, -, rfl⟩ := h
  refine length_after? ?_ ha
  rintro rfl
  simp [words] at hw

theorem length_signed? {cs rest : List Char} {n : Numeral}
    (h : signed? cs = some (n, rest)) : rest.length < cs.length := by
  unfold signed? at h
  split at h
  · exact Nat.lt_succ_of_lt (length_numeral? h)
  · exact length_numeral? h

theorem length_bracket {c : Char} {cs rest : List Char} {t u : Token}
    (h : some (t, cs) = some (u, rest)) : rest.length < (c :: cs).length := by
  obtain ⟨-, rfl⟩ := Prod.mk.inj (Option.some.inj h)
  exact Nat.lt_succ_self _

theorem length_first? {cs rest : List Char} {t : Token}
    (h : first? cs = some (t, rest)) : rest.length < cs.length := by
  unfold first? at h
  split at h
  · exact length_bracket h
  · exact length_bracket h
  · exact length_bracket h
  · exact length_bracket h
  · exact length_bracket h
  · exact length_bracket h
  · obtain ⟨⟨s, r⟩, hq, h⟩ := Option.map_eq_some_iff.1 h
    obtain ⟨-, rfl⟩ := Prod.mk.inj h
    exact Nat.lt_succ_of_lt (length_quotedText? hq)
  · split at h
    · rename_i hw
      obtain ⟨-, rfl⟩ := Prod.mk.inj (Option.some.inj h)
      exact length_word? hw
    · obtain ⟨⟨n, r⟩, hn, h⟩ := Option.map_eq_some_iff.1 h
      obtain ⟨-, rfl⟩ := Prod.mk.inj h
      exact length_signed? hn

/-- Whether the character is a blank of a document. -/
def isBlank (c : Char) : Bool :=
  c = ' ' || c = '\t' || c = '\n' || c = '\r'

/-- The tokens of the text. -/
def ofText? (cs : List Char) : Option (List Token) :=
  match _h : cs.dropWhile isBlank with
  | [] => some []
  | c :: cs' =>
    match _h' : first? (c :: cs') with
    | none => none
    | some (t, rest) => (ofText? rest).map (t :: ·)
termination_by cs.length
decreasing_by
  have := length_first? _h'
  have := (List.dropWhile_suffix (l := cs) isBlank).length_le
  rw [_h] at this
  omega

end Token

end Clearance
