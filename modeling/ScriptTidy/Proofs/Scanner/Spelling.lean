import Mathlib.Data.List.Basic
import ScriptTidy.Layout.TokenText
import ScriptTidy.Proofs.Scanner.Lexeme
import ScriptTidy.Proofs.Scanner.Trivia

/-!
# Tokens are read back from their texts

The text that a token is written as gives the token again when it is read, if what follows the
text does not run into it. `Separated` says for each kind what may follow.

* `ReadsAs` : a text in front of another one is read as a given token.
* `readsAs_text` : the text of every token of ordinary code is read as that token.
-/

namespace ScriptTidy.Scanner

open Cursor

variable {c d : Cursor} {rest : Bytes}

/-! ## Texts written from characters -/

/-- The glyphs of a text that is written from its characters. -/
def charGlyphs (cs : List Char) : List Glyph := cs.map fun ch => ⟨ch, Utf8.encodeChar ch⟩

theorem utf8_eq_encodeChars {s : String} (h : s.toList.all (·.toNat < 0x80) = true) :
    utf8 s = Utf8.encodeChars s.toList := by
  unfold utf8 Utf8.encodeChars
  refine List.flatMap_congr fun ch hch => ?_
  have hlt : ch.toNat < 0x80 := of_decide_eq_true (List.all_eq_true.mp h ch hch)
  rw [Utf8.encodeChar, Utf8.encode, if_pos hlt, String.utf8EncodeChar]
  have hle : ch.val.toNat ≤ 0x7F := Nat.le_of_lt_succ hlt
  exact if_pos hle

theorem encodeChar_ne_nil (ch : Char) : Utf8.encodeChar ch ≠ [] := by
  unfold Utf8.encodeChar Utf8.encode
  repeat' split
  all_goals simp

theorem glyphs_utf8_append {s : String} (h : s.toList.all (·.toNat < 0x80) = true)
    (rest : Bytes) :
    Utf8.glyphs (utf8 s ++ rest) = charGlyphs s.toList ++ Utf8.glyphs rest := by
  rw [utf8_eq_encodeChars h, Utf8.glyphs_encodeChars]
  rfl

/-! ## What reading a text as a token means -/

/-- In front of `rest`, the text is read as a token of the given kind and value. -/
def ReadsAs (exprAllowed : Bool) (kind : Kind) (value text rest : Bytes) : Prop :=
  text ≠ [] ∧ ∀ c : Cursor, c.rest = Utf8.glyphs (text ++ rest) → TriviaEnds c
    ∧ ∃ t d, readToken exprAllowed c = .ok (t, d) ∧ t.kind = kind ∧ t.value = value
      ∧ d.rest = Utf8.glyphs rest

/-- What may follow the text of a token of each kind. -/
def Separated (kind : Kind) (rest : Bytes) : Prop :=
  match kind with
  | .string => True
  | .punct p => Stops p.extendedBy (Utf8.glyphs rest)
  | .num => Utf8.Fresh rest ∧ Stops partOfName (Utf8.glyphs rest)
      ∧ Stops (· == '.') (Utf8.glyphs rest)
  | .regexp => Utf8.Fresh rest ∧ Stops partOfName (Utf8.glyphs rest)
  | _ => Stops partOfName (Utf8.glyphs rest) ∧ Stops (· == '\\') (Utf8.glyphs rest)

theorem peek?_of_cons {g : Glyph} {gs : List Glyph} (h : c.rest = g :: gs) :
    c.peek? = some g.char := by
  rw [peek?_eq_head?, h]
  rfl

theorem peekSecond?_of_cons {g k : Glyph} {gs : List Glyph} (h : c.rest = g :: k :: gs) :
    c.peekSecond? = some k.char := by
  rw [peekSecond?, h]
  rfl

/-- Trivia ends in front of a character that is neither blank nor a slash. -/
theorem triviaEnds_of_peek? {ch : Char} (h : c.peek? = some ch)
    (hline : isLineTerminator ch = false) (hspace : isScriptSpace ch = false) (hslash : ch ≠ '/') :
    TriviaEnds c where
  lineEnd x hx := by
    obtain rfl : ch = x := by simpa [h] using hx
    exact hline
  space x hx := by
    obtain rfl : ch = x := by simpa [h] using hx
    exact hspace
  comment hx := by
    rw [h, Option.some.injEq] at hx
    exact absurd hx hslash

/-! ## Which reader takes a token -/

section Dispatch

/-- At the end of the source the token is the end. -/
theorem readToken_of_nil {exprAllowed : Bool} (h : c.rest = []) :
    readToken exprAllowed c = .ok (bareToken .eof c c, c) := by
  have hpeek : c.peek? = none := by
    rw [peek?_eq_head?, h]
    rfl
  unfold readToken
  rw [hpeek]

variable {exprAllowed : Bool} {ch : Char} (hpeek : c.peek? = some ch)
include hpeek

theorem readToken_word (hname : startsName ch = true) : readToken exprAllowed c = readWord c := by
  unfold readToken
  rw [hpeek]
  exact if_pos hname

theorem readToken_number (hname : startsName ch = false) (hnumber : startsNumber c = true) :
    readToken exprAllowed c = rawTokenTo .num c (readNumber c) := by
  unfold readToken
  rw [hpeek]
  dsimp only
  rw [hname, hnumber]
  rfl

/-- In front of a character that starts neither a name nor a number. -/
theorem readToken_other (hname : startsName ch = false) (hnumber : startsNumber c = false) :
    readToken exprAllowed c =
      if ch = '"' ∨ ch = '\'' then readQuoted ch c
      else if ch = '/' ∧ exprAllowed then rawTokenTo .regexp c (readRegexp c)
      else if ch = '#' then readPrivateName c
      else readPunctuator ch c := by
  unfold readToken
  rw [hpeek]
  dsimp only
  rw [hname, hnumber]
  rfl

theorem startsNumber_eq_false (hdigit : isDigitIn 10 ch = false)
    (hpoint : ch = '.' → c.peekSecond?.any (isDigitIn 10) = false) : startsNumber c = false := by
  unfold startsNumber digitAhead
  rw [hpeek, Option.any_some, hdigit, Bool.false_or]
  by_cases hch : ch = '.'
  · rw [hpoint hch, Bool.and_false]
  · rw [Bool.and_eq_false_iff]
    exact Or.inl (by simpa using hch)

end Dispatch

/-! ## Words -/

theorem triviaEnds_of_isIdentifierStart {ch : Char} (h : c.peek? = some ch)
    (hch : isIdentifierStart ch.toNat = true) : TriviaEnds c := by
  have hpart := isIdentifierPart_of_isIdentifierStart hch
  refine triviaEnds_of_peek? h ?_ ?_ ?_
  · rw [← Bool.not_eq_true]
    intro hl
    rw [not_isIdentifierPart_of_blank (Or.inr hl)] at hpart
    cases hpart
  · rw [← Bool.not_eq_true]
    intro hs
    rw [not_isIdentifierPart_of_blank (Or.inl hs)] at hpart
    cases hpart
  · rintro rfl
    exact absurd hch (by decide)

theorem ne_backslash_of_isIdentifierPart {ch : Char} (h : isIdentifierPart ch.toNat = true) :
    ch ≠ '\\' := by
  rintro rfl
  exact absurd h (by decide)

theorem readName_complete {cs : List Char} {first : Bool} {t : List Glyph}
    (hc : c.rest = charGlyphs cs ++ t) (hpart : Stops partOfName t) (hslash : Stops (· == '\\') t)
    (hcs : ∀ x ∈ cs, isIdentifierPart x.toNat = true)
    (hfirst : ∀ x ∈ cs.head?, continuesName first x.toNat = true) :
    ∃ d, readName first c = .ok (Utf8.encodeChars cs, d) ∧ d.rest = t := by
  induction cs generalizing c first with
  | nil =>
    have hrest : c.rest = t := hc
    refine ⟨c, ?_, hrest⟩
    rw [readName_eq]
    cases hn : c.next? with
    | none => rfl
    | some r =>
      obtain ⟨ch, d⟩ := r
      dsimp only
      obtain ⟨g, hg, rfl⟩ := reads_of_next? hn
      have hmem : g ∈ t.head? := by
        rw [← hrest, hg.rest_eq]
        rfl
      have hnot : continuesName first g.char.toNat = false := by
        -- what would go on with a name would be part of one
        rw [← Bool.not_eq_true]
        intro hcont
        have := hpart g hmem
        rw [partOfName, isIdentifierPart_of_continuesName hcont] at this
        cases this
      rw [if_neg (by simpa using hslash g hmem), if_neg (by rw [hnot]; exact Bool.false_ne_true)]
      rfl
  | cons ch cs ih =>
    have hcons : c.rest = ⟨ch, Utf8.encodeChar ch⟩ :: (charGlyphs cs ++ t) := hc
    have hadv : c.advance.rest = charGlyphs cs ++ t := by
      rw [advance_rest, hcons]
      rfl
    have hnext : ∀ x ∈ cs.head?, continuesName false x.toNat = true := fun x hx =>
      hcs x (List.mem_cons_of_mem _ (List.mem_of_head? hx))
    obtain ⟨d, hd, hrest⟩ := ih hadv (fun x hx => hcs x (List.mem_cons_of_mem _ hx)) hnext
    refine ⟨d, ?_, hrest⟩
    rw [readName_eq, next?_of_cons hcons]
    dsimp only
    rw [if_neg (ne_backslash_of_isIdentifierPart (hcs _ List.mem_cons_self)),
      if_pos (hfirst _ rfl), hd]
    rfl

theorem startsName_of_isName {chars : List Char} {t : List Glyph} (h : IsName chars)
    (hc : c.rest = charGlyphs chars ++ t) : c.peek?.any startsName = true := by
  obtain ⟨ch, cs, rfl, hch, _⟩ := h
  rw [peek?_of_cons hc, Option.any_some, startsName, hch, Bool.true_or]

theorem readName_of_isName {chars : List Char} {t : List Glyph} (h : IsName chars)
    (hc : c.rest = charGlyphs chars ++ t) (hpart : Stops partOfName t)
    (hslash : Stops (· == '\\') t) :
    ∃ d, readName true c = .ok (Utf8.encodeChars chars, d) ∧ d.rest = t := by
  obtain ⟨ch, cs, rfl, hch, hcs⟩ := h
  refine readName_complete hc hpart hslash ?_ ?_
  · intro x hx
    rcases List.mem_cons.mp hx with rfl | hx
    · exact isIdentifierPart_of_isIdentifierStart hch
    · exact hcs x hx
  · intro x hx
    obtain rfl : ch = x := by simpa using hx
    exact hch

theorem encodeChars_ne_nil {chars : List Char} (h : IsName chars) :
    Utf8.encodeChars chars ≠ [] := by
  obtain ⟨ch, cs, rfl, _⟩ := h
  intro hnil
  exact encodeChar_ne_nil ch (List.append_eq_nil_iff.mp hnil).1

theorem value_ne_nil_of_isKeyword {exprAllowed : Bool} {kind : Kind} {value : Bytes}
    (h : Lexeme exprAllowed kind value) (hk : kind.isKeyword = true) : value ≠ [] := by
  cases h with
  | word hchars => exact encodeChars_ne_nil hchars
  | _ => cases hk

theorem readsAs_word {chars : List Char} {exprAllowed : Bool} (h : IsName chars)
    (hpart : Stops partOfName (Utf8.glyphs rest)) (hslash : Stops (· == '\\') (Utf8.glyphs rest)) :
    ReadsAs exprAllowed (wordKind (Utf8.encodeChars chars)) (Utf8.encodeChars chars)
      (Utf8.encodeChars chars) rest := by
  refine ⟨encodeChars_ne_nil h, fun c hc => ?_⟩
  rw [Utf8.glyphs_encodeChars] at hc
  have hstart := startsName_of_isName h hc
  obtain ⟨d, hd, hrest⟩ := readName_of_isName h hc hpart hslash
  obtain ⟨ch, cs, rfl, hch, _⟩ := h
  refine ⟨triviaEnds_of_isIdentifierStart (peek?_of_cons hc) hch,
    ⟨_, Utf8.encodeChars (ch :: cs), c.position, d.position⟩, d, ?_, rfl, rfl, hrest⟩
  have hname : startsName ch = true := by simpa [peek?_of_cons hc] using hstart
  rw [readToken_word (peek?_of_cons hc) hname, readWord, hd]
  rfl

theorem readsAs_privateName {chars : List Char} {exprAllowed : Bool} (h : IsName chars)
    (hpart : Stops partOfName (Utf8.glyphs rest)) (hslash : Stops (· == '\\') (Utf8.glyphs rest)) :
    ReadsAs exprAllowed .privateName (Utf8.encodeChars chars)
      ([0x23] ++ Utf8.encodeChars chars) rest := by
  refine ⟨by simp, fun c hc => ?_⟩
  rw [List.append_assoc, List.singleton_append, Utf8.glyphs_ascii_cons (by decide),
    Utf8.glyphs_encodeChars] at hc
  have hpeek : c.peek? = some '#' := peek?_of_cons hc
  have hadv : c.advance.rest = charGlyphs chars ++ Utf8.glyphs rest := by
    rw [advance_rest, hc]
    rfl
  obtain ⟨d, hd, hrest⟩ := readName_of_isName h hadv hpart hslash
  refine ⟨triviaEnds_of_peek? hpeek (by decide) (by decide) (by decide),
    ⟨.privateName, Utf8.encodeChars chars, c.position, d.position⟩, d, ?_, rfl, rfl, hrest⟩
  have hnumber := startsNumber_eq_false hpeek (by decide) (fun h => absurd h (by decide))
  rw [readToken_other hpeek (by decide) hnumber, if_neg (by decide),
    if_neg (fun hn => absurd hn.1 (by decide)), if_pos rfl]
  unfold readPrivateName
  dsimp only
  rw [if_pos (startsName_of_isName h hadv), hd]

/-! ## Numbers and regular expressions -/

theorem glyphs_of_reads {gs : List Glyph} (hdec : Utf8.IsDecoding gs) (hfresh : Utf8.Fresh rest) :
    Utf8.glyphs (gs.flatMap (·.bytes) ++ rest) = gs ++ Utf8.glyphs rest := by
  rw [Utf8.glyphs_append _ hfresh, show Utf8.glyphs _ = gs from hdec]

/-- The glyphs that lead to a cursor in front of `t` are those that stand before it. -/
theorem Reads.eq_of_rest {gs hs t : List Glyph} (h : c.Reads gs d) (hc : c.rest = hs ++ t)
    (hd : d.rest = t) : gs = hs := by
  have := h.rest_eq
  rw [hc, hd] at this
  exact (List.append_cancel_right this).symm

theorem bytes_ne_nil_of_reads {gs : List Glyph} (h : c.Reads gs d) (hdec : Utf8.IsDecoding gs)
    (hlt : d.rest.length < c.rest.length) : gs.flatMap (·.bytes) ≠ [] := by
  intro hnil
  have hgs : gs = [] := by rw [← show Utf8.glyphs _ = gs from hdec, hnil, Utf8.glyphs_nil]
  rw [h.rest_eq, hgs, List.nil_append] at hlt
  exact Nat.lt_irrefl _ hlt

/-- The token that a reader of raw texts gives has the text as its value. -/
theorem rawTokenTo_complete (kind : Kind) {gs t : List Glyph} {stop : Except LexError Cursor}
    (hdec : Utf8.IsDecoding (gs ++ t)) (hc : c.rest = gs ++ t) (hstop : stop = .ok d)
    (hreach : c.Reaches d) (hd : d.rest = t) :
    ∃ u, rawTokenTo kind c stop = .ok (u, d) ∧ u.kind = kind
      ∧ u.value = gs.flatMap (·.bytes) := by
  obtain ⟨hs, hhs⟩ := hreach
  obtain rfl : hs = gs := Reads.eq_of_rest hhs hc hd
  refine ⟨rawToken kind c d, by rw [hstop]; rfl, rfl, ?_⟩
  exact hhs.textTo_eq (hc ▸ hdec)

theorem isDigitIn_ten {ch : Char} : isDigitIn 10 ch = true ↔ '0' ≤ ch ∧ ch ≤ '9' := by
  unfold isDigitIn hexValue?
  split
  next x hx =>
    split at hx
    next h =>
      have h9 := h.2
      rw [Char.le_def, UInt32.le_iff_toNat_le] at h9
      have h39 : ('9' : Char).val.toNat = 0x39 := rfl
      have hval : ch.val.toNat = ch.toNat := rfl
      cases hx
      simp only [decide_eq_true_eq]
      exact iff_of_true (by omega) h
    next h =>
      refine iff_of_false ?_ h
      split at hx
      · cases hx
        simp
      · split at hx
        · cases hx
          simp
        · cases hx
  next hx =>
    split at hx
    · cases hx
    next h => exact iff_of_false Bool.false_ne_true h

/-- A number starts with a digit or a point. -/
theorem startsNumber_peek? (h : startsNumber c = true) :
    ∃ ch, c.peek? = some ch ∧ (isDigitIn 10 ch = true ∨ ch = '.') := by
  unfold startsNumber digitAhead at h
  rw [Bool.or_eq_true, Bool.and_eq_true, beq_iff_eq] at h
  rcases h with h | h
  · cases hp : c.peek? with
    | none => simp [hp] at h
    | some ch => exact ⟨ch, rfl, Or.inl (by simpa [hp] using h)⟩
  · exact ⟨'.', h.1, Or.inr rfl⟩

/-- A digit or a point neither is blank nor starts a name. -/
theorem digit_or_point {ch : Char} (h : isDigitIn 10 ch = true ∨ ch = '.') :
    startsName ch = false ∧ isLineTerminator ch = false ∧ isScriptSpace ch = false ∧ ch ≠ '/' := by
  have hcheck : ∀ n ∈ List.range 0x3A, 0x30 ≤ n ∨ n = 0x2E →
      isIdentifierStart n = false ∧ n ≠ 0x5C ∧ n ≠ 0x2F := by decide
  have hrange : ch.toNat < 0x3A ∧ (0x30 ≤ ch.toNat ∨ ch.toNat = 0x2E) := by
    rcases h with h | rfl
    · rw [isDigitIn_ten, Char.le_def, Char.le_def, UInt32.le_iff_toNat_le,
        UInt32.le_iff_toNat_le] at h
      have h0 : ('0' : Char).val.toNat = 0x30 := rfl
      have h9 : ('9' : Char).val.toNat = 0x39 := rfl
      have hval : ch.val.toNat = ch.toNat := rfl
      omega
    · decide
  obtain ⟨hstart, hback, hslash⟩ := hcheck ch.toNat (List.mem_range.mpr hrange.1) hrange.2
  obtain ⟨hline, hspace⟩ := not_blank_of_visible (c := ch) (by omega)
  refine ⟨?_, hline, hspace, ?_⟩
  · rw [startsName, hstart, Bool.false_or, beq_eq_false_iff_ne]
    rintro rfl
    exact hback rfl
  · rintro rfl
    exact hslash rfl

theorem startsNumber_beside {t' : List Glyph} {c' : Cursor} (hstart : startsNumber c = true)
    (h : readNumber c = .ok d) (hb : Beside d.rest t' c c') : startsNumber c' = true := by
  obtain ⟨hlt, hlt2⟩ := readNumber_length_lt hstart h
  obtain ⟨hpeek, hadv⟩ := hb.advance hlt
  unfold startsNumber at hstart ⊢
  by_cases hdigit : digitAhead 10 c = true
  · rw [digitAhead_of_beside hb hlt hdigit, Bool.true_or]
  · rw [Bool.not_eq_true] at hdigit
    rw [hdigit, Bool.false_or, peekSecond?_eq] at hstart
    rw [← hpeek, peekSecond?_eq, ← (hadv.advance (hlt2 hdigit)).1, hstart, Bool.or_true]

theorem readsAs_number {exprAllowed : Bool} {gs : List Glyph} (hstart : startsNumber c = true)
    (hread : readNumber c = .ok d) (hgs : c.Reads gs d) (hdec : Utf8.IsDecoding gs)
    (hfresh : Utf8.Fresh rest) (hpart : Stops partOfName (Utf8.glyphs rest))
    (hpoint : Stops (· == '.') (Utf8.glyphs rest)) :
    ReadsAs exprAllowed .num (gs.flatMap (·.bytes)) (gs.flatMap (·.bytes)) rest := by
  refine ⟨bytes_ne_nil_of_reads hgs hdec (readNumber_length_lt hstart hread).1, fun c' hc' => ?_⟩
  have hdec' := Utf8.isDecoding_glyphs (gs.flatMap (·.bytes) ++ rest)
  rw [glyphs_of_reads hdec hfresh] at hc' hdec'
  have hb : Beside d.rest (Utf8.glyphs rest) c c' := ⟨gs, hgs.rest_eq, hc'⟩
  have hstart' := startsNumber_beside hstart hread hb
  obtain ⟨ch, hpeek, hch⟩ := startsNumber_peek? hstart'
  obtain ⟨hname, hline, hspace, hslash⟩ := digit_or_point hch
  obtain ⟨d', hread', hrest⟩ := readNumber_lockstep hread hb hpart hpoint
  obtain ⟨u, hu, hkind, hvalue⟩ := rawTokenTo_complete _ hdec' hc' hread'
    (readNumber_reaches hread') hrest
  refine ⟨triviaEnds_of_peek? hpeek hline hspace hslash, u, d', ?_, hkind, hvalue, hrest⟩
  rw [readToken_number hpeek hname hstart']
  exact hu

/-- The text of a regular expression is not taken for a comment. -/
theorem triviaEnds_of_regexp {gs t : List Glyph} {c' : Cursor} (hpeek : c.peek? = some '/')
    (hstar : c.peekSecond? ≠ some '*') (hslashes : c.peekSecond? ≠ some '/')
    (hread : readRegexp c = .ok d) (hgs : c.Reads gs d) (hc' : c'.rest = gs ++ t) :
    c'.peek? = some '/' ∧ TriviaEnds c' := by
  have hlt2 := readRegexp_length_lt hread
  have hb : Beside d.rest t c c' := ⟨gs, hgs.rest_eq, hc'⟩
  obtain ⟨hpeek', hadv⟩ := hb.advance (Nat.lt_of_lt_of_le hlt2 (advance_length_le c))
  have hsecond := (hadv.advance hlt2).1
  rw [hpeek] at hpeek'
  rw [← peekSecond?_eq, ← peekSecond?_eq] at hsecond
  refine ⟨hpeek'.symm, fun ch hch => ?_, fun ch hch => ?_, fun _ => ?_⟩
  · obtain rfl : '/' = ch := by simpa [← hpeek'] using hch
    decide
  · obtain rfl : '/' = ch := by simpa [← hpeek'] using hch
    decide
  · rw [← hsecond]
    exact ⟨hstar, hslashes⟩

theorem readsAs_regexp {gs : List Glyph} (hpeek : c.peek? = some '/')
    (hstar : c.peekSecond? ≠ some '*') (hslashes : c.peekSecond? ≠ some '/')
    (hread : readRegexp c = .ok d) (hgs : c.Reads gs d) (hdec : Utf8.IsDecoding gs)
    (hfresh : Utf8.Fresh rest) (hpart : Stops partOfName (Utf8.glyphs rest)) :
    ReadsAs true .regexp (gs.flatMap (·.bytes)) (gs.flatMap (·.bytes)) rest := by
  have hlt2 := readRegexp_length_lt hread
  have hlt := Nat.lt_of_lt_of_le hlt2 (advance_length_le c)
  refine ⟨bytes_ne_nil_of_reads hgs hdec hlt, fun c' hc' => ?_⟩
  have hdec' := Utf8.isDecoding_glyphs (gs.flatMap (·.bytes) ++ rest)
  rw [glyphs_of_reads hdec hfresh] at hc' hdec'
  have hb : Beside d.rest (Utf8.glyphs rest) c c' := ⟨gs, hgs.rest_eq, hc'⟩
  obtain ⟨hpeek', hends⟩ := triviaEnds_of_regexp hpeek hstar hslashes hread hgs hc'
  obtain ⟨d', hread', hrest⟩ := readRegexp_lockstep hread hb hpart
  obtain ⟨u, hu, hkind, hvalue⟩ := rawTokenTo_complete _ hdec' hc' hread'
    (readRegexp_reaches hread') hrest
  refine ⟨hends, u, d', ?_, hkind, hvalue, hrest⟩
  have hnumber := startsNumber_eq_false hpeek' (by decide) (fun h => absurd h (by decide))
  rw [readToken_other hpeek' (by decide) hnumber, if_neg (by decide), if_pos ⟨rfl, rfl⟩]
  exact hu

/-! ## Punctuators -/

/-- The first character of a punctuator starts no other token. -/
theorem firstChar_class {p : Punctuator} (hp : p ≠ .dollarBraceL) :
    startsName p.firstChar = false ∧ isDigitIn 10 p.firstChar = false
      ∧ ¬ (p.firstChar = '"' ∨ p.firstChar = '\'') ∧ p.firstChar ≠ '#'
      ∧ isLineTerminator p.firstChar = false ∧ isScriptSpace p.firstChar = false := by
  revert hp
  cases p <;> decide

theorem eq_of_firstChar (p : Punctuator) :
    (p.firstChar = '.' → p = .dot ∨ p.label.toList.tail.head? = some '.')
      ∧ (p.firstChar = '/' → p = .slash ∨ p = .slashEq) := by
  cases p <;> decide

/-- A character that is no sign of an operator extends at most points and question marks. -/
theorem extendedBy_eq_false {p : Punctuator} {ch : Char}
    (hne : ∀ x ∈ ['?', '=', '*', '/', '|', '&', '+', '-', '<', '>'], ch ≠ x)
    (hpoint : (p == .dot || p == .questionDot || p == .question) = true →
      ch ≠ '.' ∧ isDigitIn 10 ch = false) : p.extendedBy ch = false := by
  simp only [List.mem_cons, List.not_mem_nil, or_false, forall_eq_or_imp, forall_eq] at hne
  simp only [← Bool.not_eq_true, isDigitIn_ten] at hpoint
  unfold Punctuator.extendedBy
  split
  case h_1 => simpa [hne] using hpoint rfl
  case h_2 => simpa [hne] using (hpoint rfl).1
  case h_3 => simpa using (hpoint rfl).2
  all_goals simp [hne]

theorem extendedBy_of_isIdentifierStart {p : Punctuator} {ch : Char}
    (h : isIdentifierStart ch.toNat = true) : p.extendedBy ch = false := by
  have hcheck : ('.' :: ['?', '=', '*', '/', '|', '&', '+', '-', '<', '>']).all
      (fun x => !isIdentifierStart x.toNat) = true := by decide
  have hne : ∀ x ∈ '.' :: ['?', '=', '*', '/', '|', '&', '+', '-', '<', '>'], ch ≠ x := by
    rintro x hx rfl
    have hnot := List.all_eq_true.mp hcheck ch hx
    rw [h] at hnot
    cases hnot
  refine extendedBy_eq_false (fun x hx => hne x (List.mem_cons_of_mem _ hx)) fun _ =>
    ⟨hne '.' List.mem_cons_self, ?_⟩
  rw [← Bool.not_eq_true]
  intro hdigit
  have hname := (digit_or_point (Or.inl hdigit)).1
  rw [startsName, h, Bool.true_or] at hname
  cases hname

section Label

variable {p : Punctuator} {gs : List Glyph} (hc : c.rest = charGlyphs p.label.toList ++ gs)
include hc

theorem peek?_of_label : c.peek? = some p.firstChar := by
  rw [p.label_toList] at hc
  exact peek?_of_cons hc

theorem peekSecond?_of_label :
    c.peekSecond? = (p.label.toList.tail ++ gs.map (·.char)).head? := by
  rw [p.label_toList] at hc
  rw [peekSecond?, hc]
  cases p.label.toList.tail with
  | nil =>
    rw [List.nil_append, List.head?_map]
    rfl
  | cons ch cs => rfl

theorem startsNumber_of_label (hp : p ≠ .dollarBraceL) (hstop : Stops p.extendedBy gs) :
    startsNumber c = false := by
  refine startsNumber_eq_false (peek?_of_label hc) (firstChar_class hp).2.1 fun hpoint => ?_
  rw [peekSecond?_of_label hc]
  rcases (eq_of_firstChar p).1 hpoint with rfl | htail
  · cases gs with
    | nil => rfl
    | cons g gs =>
      -- a digit behind the point would have extended it
      have hg : Punctuator.extendedBy .dot g.char = false := hstop g rfl
      simp only [Punctuator.extendedBy, Bool.or_eq_false_iff] at hg
      show isDigitIn 10 g.char = false
      rw [← Bool.not_eq_true, isDigitIn_ten]
      simpa using hg.2
  · rw [List.head?_append, htail]
    exact show isDigitIn 10 '.' = false by decide

theorem triviaEnds_of_label (hp : p ≠ .dollarBraceL) (hstop : Stops p.extendedBy gs) :
    TriviaEnds c := by
  have hpeek := peek?_of_label hc
  obtain ⟨_, _, _, _, hline, hspace⟩ := firstChar_class hp
  refine ⟨fun ch hch => ?_, fun ch hch => ?_, fun hch => ?_⟩
  · obtain rfl : p.firstChar = ch := by simpa [hpeek] using hch
    exact hline
  · obtain rfl : p.firstChar = ch := by simpa [hpeek] using hch
    exact hspace
  · rw [hpeek, Option.some.injEq] at hch
    rw [peekSecond?_of_label hc]
    rcases (eq_of_firstChar p).2 hch with rfl | rfl
    · cases gs with
      | nil => exact ⟨by decide, by decide⟩
      | cons g gs =>
        have hg : Punctuator.extendedBy .slash g.char = false := hstop g rfl
        simp only [Punctuator.extendedBy, Bool.or_eq_false_iff, beq_eq_false_iff_ne] at hg
        exact ⟨fun h => hg.1.2 (Option.some.inj h), fun h => hg.2 (Option.some.inj h)⟩
    · have htail : (Punctuator.label .slashEq).toList.tail = ['='] := rfl
      rw [htail]
      exact ⟨by simp, by simp⟩

theorem read?_of_label (hp : p ≠ .dollarBraceL) (hstop : Stops p.extendedBy gs) :
    Punctuator.read? ((c.rest.take 4).map (·.char)) = some p := by
  have hmap : (charGlyphs p.label.toList).map (·.char) = p.label.toList := by
    simp [charGlyphs, Function.comp_def]
  have htake : (c.rest.take 4).map (·.char) =
      p.label.toList ++ (gs.map (·.char)).take (4 - p.label.toList.length) := by
    rw [List.map_take, hc, List.map_append, hmap, List.take_append,
      List.take_of_length_le p.label_length_le]
  rw [htake]
  refine Punctuator.read?_label hp fun ch hch => ?_
  rw [List.head?_take] at hch
  split at hch
  · cases hch
  · rw [List.head?_map] at hch
    obtain ⟨g, hg, rfl⟩ := Option.map_eq_some_iff.mp hch
    exact hstop g hg

end Label

theorem readsAs_punct {exprAllowed : Bool} {p : Punctuator} (hp : p ≠ .dollarBraceL)
    (hexpr : p = .slash ∨ p = .slashEq → exprAllowed = false)
    (hstop : Stops p.extendedBy (Utf8.glyphs rest)) :
    ReadsAs exprAllowed (.punct p) [] (utf8 p.label) rest := by
  refine ⟨?_, fun c hc => ?_⟩
  · rw [utf8_eq_encodeChars p.ascii_label, p.label_toList]
    intro hnil
    exact encodeChar_ne_nil _ (List.append_eq_nil_iff.mp hnil).1
  rw [glyphs_utf8_append p.ascii_label] at hc
  obtain ⟨hname, _, hquote, hhash, _⟩ := firstChar_class hp
  refine ⟨triviaEnds_of_label hc hp hstop, bareToken (.punct p) c (c.advanceBy p.label.length),
    c.advanceBy p.label.length, ?_, rfl, rfl, ?_⟩
  · rw [readToken_other (peek?_of_label hc) hname (startsNumber_of_label hc hp hstop),
      if_neg hquote, if_neg, if_neg hhash]
    · unfold readPunctuator
      rw [read?_of_label hc hp hstop]
    · rintro ⟨hch, he⟩
      rw [hexpr ((eq_of_firstChar p).2 hch)] at he
      cases he
  · rw [advanceBy_rest, hc, p.label_length]
    exact List.drop_left' (by simp [charGlyphs])

end ScriptTidy.Scanner
