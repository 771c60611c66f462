import Clearance.Document.Reader
import Clearance.Text.Utf8

/-!
# Line ends of a document

A file is read with every kind of line end as a line feed, but the document in it may have any of
them. This makes no difference: line ends are blanks between the tokens of a document, and no token
has one in it. Each of the functions that take a token off a text takes the same token off the text
with normal line ends, and leaves the rest of it with normal line ends; hence the tokens are the
same (`Token.ofText?_normalNewlines`), and so is the document (`Document.ofText?_normalNewlines`).
-/

namespace Clearance

namespace Text

variable {c : Char} {cs : List Char} {p : Char → Bool}

theorem normalNewlines_cons_of_ne (h : c ≠ '\r') :
    normalNewlines (c :: cs) = c :: normalNewlines cs := by
  rw [normalNewlines, if_neg h]
  exact fun _ hc => absurd hc h

/-- A text is empty, or starts with a character that is kept, or with a line end, which becomes a
line feed. -/
theorem normalNewlines_cases (cs : List Char) :
    (cs = [] ∧ normalNewlines cs = []) ∨
    (∃ c rest, c ≠ '\r' ∧ cs = c :: rest ∧ normalNewlines cs = c :: normalNewlines rest) ∨
    ∃ rest rest', cs = '\r' :: rest ∧ normalNewlines cs = '\n' :: rest' := by
  fun_cases normalNewlines cs with
  | case1 => exact .inl ⟨rfl, rfl⟩
  | case2 cs => exact .inr (.inr ⟨_, _, rfl, rfl⟩)
  | case3 c cs hc =>
    by_cases h : c = '\r'
    · exact .inr (.inr ⟨cs, normalNewlines cs, by rw [h], by rw [if_pos h]⟩)
    · exact .inr (.inl ⟨c, cs, h, rfl, by rw [if_neg h]⟩)

/-- Characters of a kind that line ends are not of stand at the start of a text as before. -/
theorem span_normalNewlines (hr : p '\r' = false) (hn : p '\n' = false) (cs : List Char) :
    (normalNewlines cs).takeWhile p = cs.takeWhile p ∧
      (normalNewlines cs).dropWhile p = normalNewlines (cs.dropWhile p) := by
  induction cs with
  | nil => exact ⟨rfl, rfl⟩
  | cons c cs ih =>
    rcases normalNewlines_cases (c :: cs) with ⟨⟨⟩, -⟩ | ⟨_, _, hc, ⟨⟩, h⟩ | ⟨_, _, ⟨⟩, h⟩
    · cases hp : p c <;> simp [hp, ih, h]
    · simp [hr, hn, h]

end Text

namespace Token

open Text

/-- What follows, with normal line ends. -/
def normalRest {α : Type} (r : α × List Char) : α × List Char :=
  (r.1, normalNewlines r.2)

theorem dropWhile_isBlank_normalNewlines (cs : List Char) :
    (normalNewlines cs).dropWhile isBlank = normalNewlines (cs.dropWhile isBlank) := by
  fun_induction normalNewlines cs with
  | case1 => rfl
  | case2 cs ih => exact ih
  | case3 c cs hc ih =>
    by_cases hr : c = '\r'
    · subst hr
      exact ih
    · rw [if_neg hr, List.dropWhile_cons, List.dropWhile_cons, ih]
      split
      · rfl
      · rw [normalNewlines_cons_of_ne hr]

/-! ## Numbers and words -/

theorem digits_normalNewlines (cs : List Char) :
    digits (normalNewlines cs) = normalRest (digits cs) := by
  obtain ⟨ht, hd⟩ := span_normalNewlines (p := Char.isDigit) rfl rfl cs
  rw [digits, ht, hd, normalRest, digits]

theorem fraction?_normalNewlines (cs : List Char) :
    fraction? (normalNewlines cs) = (fraction? cs).map normalRest := by
  rcases normalNewlines_cases cs with ⟨rfl, h⟩ | ⟨c, cs, hc, rfl, h⟩ | ⟨cs, cs', rfl, h⟩
  · rfl
  · rw [h]
    by_cases hp : c = '.'
    · subst hp
      simp only [fraction?, digits_normalNewlines, normalRest]
      split <;> rfl
    · simp [fraction?, hp, normalRest, h]
  · simp [fraction?, normalRest, h]

theorem exponentDigits?_normalNewlines (negative : Bool) (cs : List Char) :
    exponentDigits? negative (normalNewlines cs) =
      (exponentDigits? negative cs).map normalRest := by
  simp only [exponentDigits?, digits_normalNewlines, normalRest]
  split <;> rfl

/-- An exponent after its letter, with a sign or without. -/
theorem exponentSign_normalNewlines (cs : List Char) :
    (match normalNewlines cs with
      | '+' :: cs => exponentDigits? false cs
      | '-' :: cs => exponentDigits? true cs
      | cs => exponentDigits? false cs) =
    (match cs with
      | '+' :: cs => exponentDigits? false cs
      | '-' :: cs => exponentDigits? true cs
      | cs => exponentDigits? false cs).map normalRest := by
  have hplain := exponentDigits?_normalNewlines false cs
  rcases normalNewlines_cases cs with ⟨rfl, h⟩ | ⟨c, cs, hc, rfl, h⟩ | ⟨cs, cs', rfl, h⟩ <;>
    rw [h] at hplain ⊢
  · exact hplain
  · by_cases hp : c = '+'
    · subst hp
      exact exponentDigits?_normalNewlines false cs
    by_cases hm : c = '-'
    · subst hm
      exact exponentDigits?_normalNewlines true cs
    · simpa [hp, hm] using hplain
  · exact hplain

theorem exponent?_normalNewlines (cs : List Char) :
    exponent? (normalNewlines cs) = (exponent? cs).map normalRest := by
  rcases normalNewlines_cases cs with ⟨rfl, h⟩ | ⟨c, cs, hc, rfl, h⟩ | ⟨cs, cs', rfl, h⟩
  · rfl
  · rw [h]
    simp only [exponent?]
    split
    · exact exponentSign_normalNewlines cs
    · simp [normalRest, h]
  · simp [exponent?, normalRest, h]

theorem numeral?_normalNewlines (negative : Bool) (cs : List Char) :
    numeral? negative (normalNewlines cs) = (numeral? negative cs).map normalRest := by
  simp only [numeral?, digits_normalNewlines, normalRest, fraction?_normalNewlines]
  split
  · rfl
  cases fraction? (digits cs).2 with
  | none => rfl
  | some r =>
    simp only [Option.map_some, Option.bind_eq_bind, Option.bind_some, normalRest,
      exponent?_normalNewlines]
    cases exponent? r.2 with
    | none => rfl
    | some r' =>
      simp only [Option.map_some, Option.bind_some, normalRest]
      split <;> rfl

theorem signed?_normalNewlines (cs : List Char) :
    signed? (normalNewlines cs) = (signed? cs).map normalRest := by
  have hplain := numeral?_normalNewlines false cs
  rcases normalNewlines_cases cs with ⟨rfl, h⟩ | ⟨c, cs, hc, rfl, h⟩ | ⟨cs, cs', rfl, h⟩ <;>
    rw [h] at hplain ⊢
  · exact hplain
  · by_cases hm : c = '-'
    · subst hm
      exact numeral?_normalNewlines true cs
    · simpa [signed?, hm] using hplain
  · exact hplain

/-- A word without a line end is taken off the text as before. -/
theorem after?_normalNewlines {word : List Char} (hr : '\r' ∉ word) (hn : '\n' ∉ word)
    (cs : List Char) : after? word (normalNewlines cs) = (after? word cs).map normalNewlines := by
  induction word generalizing cs with
  | nil => rfl
  | cons x word ih =>
    obtain ⟨hxr, hr⟩ := not_or.1 (mt List.mem_cons.2 hr)
    obtain ⟨hxn, hn⟩ := not_or.1 (mt List.mem_cons.2 hn)
    have hcons : ∀ (d : Char) (ds : List Char),
        after? (x :: word) (d :: ds) = if x = d then after? word ds else none := by
      intro d ds
      by_cases hx : x = d <;> simp [after?, hx]
    rcases normalNewlines_cases cs with ⟨rfl, h⟩ | ⟨c, cs, hc, rfl, h⟩ | ⟨cs, cs', rfl, h⟩
    · rfl
    · rw [h, hcons, hcons, ih hr hn]
      split <;> rfl
    · rw [h, hcons, hcons, if_neg (Ne.symm hxn), if_neg (Ne.symm hxr)]
      rfl

theorem word?_normalNewlines (cs : List Char) :
    word? (normalNewlines cs) = (word? cs).map normalRest := by
  have hwords : ∀ ws : List (List Char × Document),
      (∀ w ∈ ws, '\r' ∉ w.1 ∧ '\n' ∉ w.1) →
      (ws.findSome? fun w => (after? w.1 (normalNewlines cs)).map (w.2, ·)) =
        (ws.findSome? fun w => (after? w.1 cs).map (w.2, ·)).map normalRest := by
    intro ws hws
    induction ws with
    | nil => rfl
    | cons w ws ih =>
      obtain ⟨word, d⟩ := w
      obtain ⟨hw, hws⟩ := List.forall_mem_cons.1 hws
      rw [List.findSome?_cons, List.findSome?_cons, ih hws]
      dsimp only
      rw [after?_normalNewlines hw.1 hw.2]
      cases after? word cs <;> rfl
  exact hwords words (by decide)

/-! ## Texts -/

theorem ne_return_of_hexValue? {c : Char} {v : Nat} (h : hexValue? c = some v) : c ≠ '\r' := by
  rintro rfl
  cases h

/-- The digits of an escaped code unit stand before a line end. -/
theorem normalNewlines_codeUnit {a b c d : Char} {v : Nat} (h : codeUnit? a b c d = some v)
    (cs : List Char) :
    normalNewlines ('\\' :: 'u' :: a :: b :: c :: d :: cs) =
      '\\' :: 'u' :: a :: b :: c :: d :: normalNewlines cs := by
  simp only [codeUnit?, Option.bind_eq_bind, Option.bind_eq_some_iff] at h
  obtain ⟨_, ha, _, hb, _, hc, _, hd, -⟩ := h
  rw [normalNewlines_cons_of_ne (by decide), normalNewlines_cons_of_ne (by decide),
    normalNewlines_cons_of_ne (ne_return_of_hexValue? ha),
    normalNewlines_cons_of_ne (ne_return_of_hexValue? hb),
    normalNewlines_cons_of_ne (ne_return_of_hexValue? hc),
    normalNewlines_cons_of_ne (ne_return_of_hexValue? hd)]

/-- A quoted text has no line end in it. -/
theorem quotedText?_normalNewlines {read cs rest : List Char} {s : String}
    (h : quotedText? read cs = some (s, rest)) :
    quotedText? read (normalNewlines cs) = some (s, normalNewlines rest) := by
  fun_induction quotedText? read cs with
  | case2 read cs =>
    cases h
    rw [normalNewlines_cons_of_ne (by decide), quotedText?]
  | case5 read a b c d u hu hhigh a' b' c' d' cs v hv hlow ih =>
    rw [normalNewlines_codeUnit hu, normalNewlines_codeUnit hv, quotedText?, hu]
    simp only [hhigh, hv, hlow, if_true]
    exact ih h
  | case9 read a b c d cs u hu hhigh hlow ih =>
    rw [normalNewlines_codeUnit hu, quotedText?, hu]
    simp only [if_neg hhigh, if_neg hlow]
    exact ih h
  | case11 read c cs hu e he ih =>
    have hc : c ≠ '\r' := by
      rintro rfl
      cases he
    rw [normalNewlines_cons_of_ne (by decide), normalNewlines_cons_of_ne hc, quotedText?, he]
    · exact ih h
    · rintro a b c' d cs' rfl
      cases he
  | case13 read c cs hquote hunit hescape hplain ih =>
    have hc : c ≠ '\r' := by
      rintro rfl
      exact hplain rfl
    have hne : c ≠ '\\' := fun hb => hplain (by simp [hb])
    rw [normalNewlines_cons_of_ne hc, quotedText?, if_neg hplain]
    · exact ih h
    · exact hquote
    · exact fun _ _ _ _ _ hb => absurd hb hne
    · exact fun _ _ hb => absurd hb hne
  | _ => cases h

/-! ## Tokens -/

/-- What starts neither with a mark nor with a quote is a word or a number. -/
theorem first?_of_ne {c : Char} (hmark : c ∉ ['[', ']', '\x7b', '\x7d', ':', ','])
    (hquote : c ≠ '"') (cs : List Char) :
    first? (c :: cs) =
      match word? (c :: cs) with
      | some (d, rest) => some (.plain d, rest)
      | none => (signed? (c :: cs)).map fun (n, rest) => (.plain (.number n), rest) := by
  unfold first?
  split
  case h_8 => rfl
  all_goals simp_all

theorem first?_normalNewlines {c : Char} {cs rest : List Char} {t : Token} (hc : c ≠ '\r')
    (h : first? (c :: cs) = some (t, rest)) :
    first? (normalNewlines (c :: cs)) = some (t, normalNewlines rest) := by
  have hword := word?_normalNewlines (c :: cs)
  have hsigned := signed?_normalNewlines (c :: cs)
  rw [normalNewlines_cons_of_ne hc] at hword hsigned ⊢
  by_cases hmark : c ∈ ['[', ']', '\x7b', '\x7d', ':', ',']
  · simp only [List.mem_cons, List.not_mem_nil, or_false] at hmark
    rcases hmark with rfl | rfl | rfl | rfl | rfl | rfl <;> cases h <;> rfl
  by_cases hquote : c = '"'
  · subst hquote
    obtain ⟨⟨s, rest'⟩, hq, ht⟩ := Option.map_eq_some_iff.1 h
    obtain ⟨rfl, rfl⟩ := Prod.mk.inj ht
    exact Option.map_eq_some_iff.2 ⟨_, quotedText?_normalNewlines hq, rfl⟩
  rw [first?_of_ne hmark hquote] at h ⊢
  rw [hword]
  cases hw : word? (c :: cs) with
  | some r =>
    rw [hw] at h
    cases h
    rfl
  | none =>
    rw [hw] at h
    obtain ⟨⟨n, rest'⟩, hn, ht⟩ := Option.map_eq_some_iff.1 h
    obtain ⟨rfl, rfl⟩ := Prod.mk.inj ht
    exact Option.map_eq_some_iff.2 ⟨(n, normalNewlines rest'), by rw [hsigned, hn]; rfl, rfl⟩

/-- A text that is blank has no tokens. -/
theorem ofText?_of_blank {cs : List Char} (h : cs.dropWhile isBlank = []) :
    ofText? cs = some [] := by
  rw [ofText?]
  split
  · rfl
  · next hd => cases hd.symm.trans h

/-- The first token of a text stands behind its first blanks, and the others in what follows. -/
theorem ofText?_cons {cs : List Char} {t : Token} {ts : List Token} (rest : List Char)
    (h : first? (cs.dropWhile isBlank) = some (t, rest)) (hrest : ofText? rest = some ts) :
    ofText? cs = some (t :: ts) := by
  rw [ofText?]
  split
  · next hd =>
    rw [hd] at h
    cases h
  · next hd =>
    rw [hd] at h
    split
    · next hf => cases hf.symm.trans h
    · next hf =>
      cases hf.symm.trans h
      rw [hrest]
      rfl

/-- The tokens of a text are those of the text with normal line ends. -/
theorem ofText?_normalNewlines {cs : List Char} {ts : List Token} (h : ofText? cs = some ts) :
    ofText? (normalNewlines cs) = some ts := by
  fun_induction ofText? cs generalizing ts with
  | case1 cs hd =>
    have hd' := dropWhile_isBlank_normalNewlines cs
    rw [hd, normalNewlines] at hd'
    exact (ofText?_of_blank hd').trans h
  | case2 cs c cs' hd hf => cases h
  | case3 cs c cs' hd t rest hf ih =>
    have hc : c ≠ '\r' := by
      rintro rfl
      have hblank := List.head?_dropWhile_not isBlank cs
      rw [hd] at hblank
      cases hblank
    have hf' := first?_normalNewlines hc hf
    rw [← hd, ← dropWhile_isBlank_normalNewlines] at hf'
    obtain ⟨ts', hts, rfl⟩ := Option.map_eq_some_iff.1 h
    exact ofText?_cons _ hf' (ih hts)

end Token

namespace Document

/-- A text with any line ends is the document that it is with normal ones. -/
theorem ofText?_normalNewlines {s : String} {d : Document} (h : ofText? s = some d) :
    ofText? (String.ofList (Text.normalNewlines s.toList)) = some d := by
  obtain ⟨ts, hts, hd⟩ := Option.bind_eq_some_iff.1 h
  rw [ofText?, String.toList_ofList, Token.ofText?_normalNewlines hts]
  exact hd

end Document

end Clearance
