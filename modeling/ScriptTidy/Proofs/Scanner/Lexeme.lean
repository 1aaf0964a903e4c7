import Mathlib.Algebra.Ring.Nat
import ScriptTidy.Proofs.Scanner.Lockstep
import ScriptTidy.Proofs.Token.Punctuator

/-!
# What a token can be

`Lexeme` lists the tokens of ordinary code by kind and value, whatever source they come from:
the value of a name is a sequence of identifier characters, that of a string a sequence of code
points, numbers and regular expressions are texts that their readers accept, and a slash is only
a punctuator where no expression may start.

* `TokenForm` : the forms in which the reader of tokens can succeed, each with what is ahead of it.
* `readToken_sound` : each token that is read is one of them, or the end of the source.
-/

namespace ScriptTidy

namespace Scanner

open Cursor

/-- The characters of a name: one that can start it and others that can follow. -/
def IsName (chars : List Char) : Prop :=
  ∃ ch cs, chars = ch :: cs ∧ isIdentifierStart ch.toNat = true
    ∧ ∀ x ∈ cs, isIdentifierPart x.toNat = true

/-- A token of ordinary code, where `exprAllowed` says whether an expression may start. -/
inductive Lexeme (exprAllowed : Bool) : Kind → Bytes → Prop
  | word {chars : List Char} (h : IsName chars) :
    Lexeme exprAllowed (wordKind (Utf8.encodeChars chars)) (Utf8.encodeChars chars)
  | privateName {chars : List Char} (h : IsName chars) :
    Lexeme exprAllowed .privateName (Utf8.encodeChars chars)
  | number {c d : Cursor} {gs : List Glyph} (hstart : startsNumber c = true)
    (hread : readNumber c = .ok d) (hgs : c.Reads gs d) (hdec : Utf8.IsDecoding gs) :
    Lexeme exprAllowed .num (gs.flatMap (·.bytes))
  | string {ns : List Nat} (h : ∀ n ∈ ns, n < 0x110000) :
    Lexeme exprAllowed .string (ns.flatMap Utf8.encode)
  | regexp {c d : Cursor} {gs : List Glyph} (hexpr : exprAllowed = true)
    (hslash : c.peek? = some '/') (hstar : c.peekSecond? ≠ some '*')
    (hslashes : c.peekSecond? ≠ some '/') (hread : readRegexp c = .ok d) (hgs : c.Reads gs d)
    (hdec : Utf8.IsDecoding gs) :
    Lexeme exprAllowed .regexp (gs.flatMap (·.bytes))
  | punct {p : Punctuator} (hp : p ≠ .dollarBraceL)
    (hslash : p = .slash ∨ p = .slashEq → exprAllowed = false) :
    Lexeme exprAllowed (.punct p) []

/-! ## Names -/

theorem encode_eq_encodeChar {n : Nat} (h : n.isValidChar) :
    Utf8.encode n = Utf8.encodeChar (Char.ofNat n) := by
  rw [Utf8.encodeChar, Utf8.toNat_charOfNat h]

theorem isIdentifierPart_of_continuesName {first : Bool} {n : Nat}
    (h : continuesName first n = true) : isIdentifierPart n = true := by
  unfold continuesName at h
  split at h
  · exact isIdentifierPart_of_isIdentifierStart h
  · exact h

theorem readName_chars {first : Bool} {c d : Cursor} {v : Bytes}
    (h : readName first c = .ok (v, d)) :
    ∃ cs, v = Utf8.encodeChars cs ∧ ∀ x ∈ cs, isIdentifierPart x.toNat = true := by
  fun_induction readName first c generalizing v with
  | case1 => cases h; exact ⟨[], rfl, fun x hx => by cases hx⟩
  | case2 => cases h
  | case3 first c e hu n f hcp hcont hn ih =>
    obtain ⟨more, hmore, rfl⟩ := withText_eq_ok h
    obtain ⟨cs, rfl, hcs⟩ := ih hmore
    have hpart := isIdentifierPart_of_continuesName hcont
    have hvalid := isValidChar_of_isIdentifierPart hpart
    refine ⟨Char.ofNat n :: cs, ?_, ?_⟩
    · rw [encode_eq_encodeChar hvalid]
      rfl
    · intro x hx
      rcases List.mem_cons.mp hx with rfl | hx
      · rw [Utf8.toNat_charOfNat hvalid]
        exact hpart
      · exact hcs x hx
  | case4 => cases h
  | case5 => cases h
  | case6 first c ch e hn hb hcont ih =>
    obtain ⟨more, hmore, rfl⟩ := withText_eq_ok h
    obtain ⟨cs, rfl, hcs⟩ := ih hmore
    refine ⟨ch :: cs, rfl, ?_⟩
    intro x hx
    rcases List.mem_cons.mp hx with rfl | hx
    · exact isIdentifierPart_of_continuesName hcont
    · exact hcs x hx
  | case7 => cases h; exact ⟨[], rfl, fun x hx => by cases hx⟩

/-- A name that starts has a first character, and reading it takes that off. -/
theorem readName_sound {c d : Cursor} {v : Bytes} (hstart : c.peek?.any startsName = true)
    (h : readName true c = .ok (v, d)) :
    (∃ chars, IsName chars ∧ v = Utf8.encodeChars chars) ∧ d.rest.length < c.rest.length := by
  rw [readName] at h
  split at h
  next hnone =>
    rw [peek?_eq_head?, next?_eq_none.mp hnone] at hstart
    cases hstart
  next ch e hn =>
    have hlt := next?_length hn
    -- the first character is escaped or stands for itself
    split at h
    · split at h
      · split at h
        · cases h
        · next n f hcp =>
          split at h
          · next hcont =>
            obtain ⟨more, hmore, rfl⟩ := withText_eq_ok h
            obtain ⟨cs, rfl, hcs⟩ := readName_chars hmore
            have hlen := (readName_reaches hmore).suffix.length_le
            have hcode := readCodePoint_length_le hcp
            have hadv := advance_length_le e
            have hvalid :=
              isValidChar_of_isIdentifierPart (isIdentifierPart_of_continuesName hcont)
            refine ⟨⟨Char.ofNat n :: cs, ⟨_, _, rfl, ?_, hcs⟩, ?_⟩, by omega⟩
            · rw [Utf8.toNat_charOfNat hvalid]
              exact hcont
            · rw [encode_eq_encodeChar hvalid]
              rfl
          · cases h
      · cases h
    · next hb =>
      split at h
      · next hcont =>
        obtain ⟨more, hmore, rfl⟩ := withText_eq_ok h
        obtain ⟨cs, rfl, hcs⟩ := readName_chars hmore
        have hlen := (readName_reaches hmore).suffix.length_le
        exact ⟨⟨ch :: cs, ⟨_, _, rfl, hcont, hcs⟩, rfl⟩, by omega⟩
      · next hcont =>
        -- the character neither is a backslash nor starts a name
        obtain ⟨g, hg, rfl⟩ := reads_of_next? hn
        rw [peek?_eq_head?, hg.rest_eq] at hstart
        have : startsName g.char = true := hstart
        unfold startsName at this
        rw [Bool.or_eq_true, beq_iff_eq] at this
        rcases this with hs | hs
        · exact absurd hs hcont
        · exact absurd hs hb

/-! ## Strings -/

/-- The text is a sequence of code points, surrogates among them. -/
def IsCodePoints (v : Bytes) : Prop :=
  ∃ ns : List Nat, v = ns.flatMap Utf8.encode ∧ ∀ n ∈ ns, n < 0x110000

theorem isCodePoints_nil : IsCodePoints [] := ⟨[], rfl, fun n hn => by cases hn⟩

theorem isCodePoints_encode {n : Nat} (h : n < 0x110000) : IsCodePoints (Utf8.encode n) := by
  refine ⟨[n], by simp, fun m hm => ?_⟩
  rw [List.mem_singleton.mp hm]
  exact h

theorem isCodePoints_encodeChar (ch : Char) : IsCodePoints (Utf8.encodeChar ch) := by
  refine isCodePoints_encode ?_
  have h := ch.valid
  simp only [UInt32.isValidChar, Nat.isValidChar] at h
  show ch.val.toNat < _
  omega

theorem IsCodePoints.append {v w : Bytes} (hv : IsCodePoints v) (hw : IsCodePoints w) :
    IsCodePoints (v ++ w) := by
  obtain ⟨ns, rfl, hns⟩ := hv
  obtain ⟨ms, rfl, hms⟩ := hw
  refine ⟨ns ++ ms, by rw [List.flatMap_append], fun n hn => ?_⟩
  rcases List.mem_append.mp hn with hn | hn
  · exact hns n hn
  · exact hms n hn

theorem hexValue?_lt {ch : Char} {x : Nat} (h : hexValue? ch = some x) : x < 16 := by
  unfold hexValue? at h
  simp only [Char.le_def, UInt32.le_iff_toNat_le] at h
  simp only [Char.toNat] at h
  split at h
  · next hr =>
    have h9 : ('9' : Char).val.toNat = 0x39 := rfl
    cases h
    omega
  · split at h
    · next hr =>
      have hf : ('f' : Char).val.toNat = 0x66 := rfl
      cases h
      omega
    · split at h
      · next hr =>
        have hF : ('F' : Char).val.toNat = 0x46 := rfl
        cases h
        omega
      · cases h

theorem readHex_lt {count value n : Nat} {c d : Cursor} (h : readHex count value c = .ok (n, d)) :
    n < (value + 1) * 16 ^ count := by
  fun_induction readHex count value c with
  | case1 => cases h; simp
  | case2 count value c ch e hn x hx ih =>
    have hx16 := hexValue?_lt hx
    have hlt := ih h
    have hle : (value * 16 + x + 1) * 16 ^ count ≤ (value + 1) * 16 * 16 ^ count :=
      Nat.mul_le_mul_right _ (by omega)
    rw [Nat.pow_succ, Nat.mul_comm (16 ^ count) 16, ← Nat.mul_assoc]
    omega
  | case3 => cases h
  | case4 => cases h

theorem readBraced_lt {value : Option Nat} {n : Nat} {c d : Cursor}
    (hv : ∀ v ∈ value, v < 0x110000) (h : readBraced value c = .ok (n, d)) : n < 0x110000 := by
  fun_induction readBraced value c with
  | case1 => cases h
  | case2 => cases h; exact hv _ rfl
  | case3 => cases h
  | case4 => cases h
  | case5 => cases h
  | case6 value c ch e hn hb x hx v hlim ih =>
    refine ih ?_ h
    intro w hw
    obtain rfl : v = w := by simpa using hw
    omega

theorem readCodePoint_lt {n : Nat} {c d : Cursor} (h : readCodePoint c = .ok (n, d)) :
    n < 0x110000 := by
  unfold readCodePoint at h
  split at h
  · exact readBraced_lt (fun v hv => by cases hv) h
  · have := readHex_lt h
    omega

theorem readLowHalf?_lt {hi n : Nat} {c d : Cursor} (h : readLowHalf? hi c = some (n, d)) :
    n < 0x110000 := by
  unfold readLowHalf? at h
  split at h
  · next hcond =>
    split at h
    · next lo e he =>
      split at h
      · next hlo =>
        simp only [Option.some.injEq, Prod.mk.injEq] at h
        obtain ⟨rfl, _⟩ := h
        simp only [isHighSurrogate, isLowSurrogate, Bool.and_eq_true, decide_eq_true_eq]
          at hcond hlo
        unfold joinSurrogates
        omega
      · cases h
    · cases h
  · cases h

theorem readOctal_lt {count value : Nat} {c : Cursor} (h : value < 256) :
    (readOctal count value c).1 < 256 := by
  fun_induction readOctal count value c with
  | case1 => exact h
  | case2 count value c ch d hn hd ih => exact ih (by omega)
  | case3 => exact h
  | case4 => exact h

/-- Control characters are written in one byte. -/
theorem encode_controlEscape? {x : Char} {b : UInt8} (h : controlEscape? x = some b) :
    Utf8.encode b.toNat = [b] := by
  unfold controlEscape? at h
  split at h
  case h_7 => cases h
  all_goals
    cases h
    rfl

theorem readUnicodeEscape_isCodePoints {v : Bytes} {c d : Cursor}
    (h : readUnicodeEscape c = .ok (v, d)) : IsCodePoints v := by
  unfold readUnicodeEscape at h
  split at h
  · cases h
  · next n e hcp =>
    split at h
    · next hl => cases h; exact isCodePoints_encode (readLowHalf?_lt hl)
    · cases h; exact isCodePoints_encode (readCodePoint_lt hcp)

theorem readEscape_isCodePoints {v : Bytes} {c d : Cursor} (h : readEscape c = .ok (v, d)) :
    IsCodePoints v := by
  unfold readEscape at h
  split at h
  · cases h
  · next ch e hn =>
    split at h
    · next b hb =>
      cases h
      rw [← encode_controlEscape? hb]
      exact isCodePoints_encode (Nat.lt_trans b.toNat_lt (by decide))
    · split at h
      · split at h
        · next n f hx =>
          cases h
          have := readHex_lt hx
          exact isCodePoints_encode (by omega)
        · cases h
      · split at h
        · exact readUnicodeEscape_isCodePoints h
        · split at h
          · cases h; exact isCodePoints_nil
          · split at h
            · cases h; exact isCodePoints_nil
            · split at h
              · next hoct =>
                cases h
                have hle : ch.toNat ≤ 0x37 := by
                  have := hoct.2
                  rw [Char.le_def, UInt32.le_iff_toNat_le] at this
                  exact this
                have hlt : (readOctal 2 (ch.toNat - 0x30) e).1 < 256 := readOctal_lt (by omega)
                exact isCodePoints_encode (by omega)
              · cases h; exact isCodePoints_encodeChar ch

theorem readString_isCodePoints {quote : Char} {start : Position} {c d : Cursor} {v : Bytes}
    (h : readString quote start c = .ok (v, d)) : IsCodePoints v := by
  fun_induction readString quote start c generalizing v with
  | case1 => cases h
  | case2 => cases h; exact isCodePoints_nil
  | case3 => cases h
  | case4 => cases h
  | case5 c e text f hesc hn hq hl ih =>
    obtain ⟨more, hmore, rfl⟩ := withText_eq_ok h
    exact (readEscape_isCodePoints hesc).append (ih hmore)
  | case6 c ch e hn hq hl hb ih =>
    obtain ⟨more, hmore, rfl⟩ := withText_eq_ok h
    exact (isCodePoints_encodeChar ch).append (ih hmore)

/-! ## Numbers -/

theorem readRadixNumber_length_lt {base : Nat} {c d : Cursor}
    (h : readRadixNumber base c = .ok d) : d.rest.length < c.rest.length := by
  unfold readRadixNumber at h
  dsimp only at h
  split at h
  next hahead =>
    cases h
    have hsuffix := (skipOneOf_reaches ['n'] (skipDigits base (c.advanceBy 2))).suffix.length_le
    have hdigits := skipDigits_length_lt hahead
    have htwo := advanceBy_length_le 2 c
    omega
  next => cases h

theorem readDecimalNumber_length_lt {c d : Cursor} (hahead : digitAhead 10 c = true)
    (h : readDecimalNumber c = .ok d) : d.rest.length < c.rest.length := by
  have hlt := skipDigits_length_lt hahead
  unfold readDecimalNumber at h
  dsimp only at h
  split at h
  · cases h
    exact Nat.lt_of_le_of_lt (advance_length_le _) hlt
  · have hle := (readExponent_reaches h).suffix.length_le
    split at hle
    · have hfraction := (skipDigits_reaches 10 (skipDigits 10 c).advance).suffix.length_le
      have hpoint := advance_length_le (skipDigits 10 c)
      omega
    · omega

/-- There are no digits to skip in front of a point. -/
theorem skipDigits_of_point {c : Cursor} (h : c.peek? = some '.') : skipDigits 10 c = c := by
  unfold skipDigits skipWhile
  split
  next ch e hn =>
    obtain ⟨g, hg, rfl⟩ := reads_of_next? hn
    have hpoint : g.char = '.' := by
      rw [peek?_eq_head?, hg.rest_eq] at h
      simpa using h
    rw [hpoint]
    rfl
  next => rfl

theorem readDecimalNumber_length_lt_of_point {c d : Cursor} (hpoint : c.peek? = some '.')
    (hsecond : c.peekSecond?.any (isDigitIn 10) = true) (h : readDecimalNumber c = .ok d) :
    d.rest.length < c.advance.rest.length := by
  have hahead : digitAhead 10 c.advance = true := by
    rw [digitAhead, ← peekSecond?_eq]
    exact hsecond
  have hlt := skipDigits_length_lt hahead
  unfold readDecimalNumber at h
  dsimp only at h
  rw [skipDigits_of_point hpoint, if_neg (by rw [hpoint]; decide), if_pos hpoint] at h
  exact Nat.lt_of_le_of_lt (readExponent_reaches h).suffix.length_le hlt

/-- A number takes at least the character it starts with, and so does its first digit behind a
point. -/
theorem readNumber_length_lt {c d : Cursor} (hstart : startsNumber c = true)
    (h : readNumber c = .ok d) :
    d.rest.length < c.rest.length ∧ (digitAhead 10 c = false →
      d.rest.length < c.advance.rest.length) := by
  have hdigits := (readNumber_eq_ok.mp h).1
  unfold readDigits at hdigits
  -- a prefix starts with a digit; without one, a point needs a digit behind it
  cases hr : radixOf? c with
  | some base =>
    rw [hr] at hdigits
    refine ⟨readRadixNumber_length_lt hdigits, fun hno => ?_⟩
    have hzero : c.peek? = some '0' := by
      unfold radixOf? at hr
      split at hr
      · assumption
      · cases hr
    rw [digitAhead, hzero] at hno
    exact absurd hno (by decide)
  | none =>
    rw [hr] at hdigits
    by_cases hahead : digitAhead 10 c = true
    · refine ⟨readDecimalNumber_length_lt hahead hdigits, fun hno => ?_⟩
      rw [hahead] at hno
      cases hno
    · rw [startsNumber, Bool.eq_false_iff.mpr hahead, Bool.false_or, Bool.and_eq_true,
        beq_iff_eq] at hstart
      have hlt := readDecimalNumber_length_lt_of_point hstart.1 hstart.2 hdigits
      exact ⟨Nat.lt_of_lt_of_le hlt (advance_length_le c), fun _ => hlt⟩

/-! ## Tokens -/

theorem wordKind_cases (word : Bytes) :
    (∃ k, wordKind word = .keyword k) ∨ wordKind word = .name := by
  unfold wordKind
  split
  next k _ => exact Or.inl ⟨k, rfl⟩
  next => exact Or.inr rfl

theorem wordKind_ne {kind : Kind} (hname : kind ≠ .name) (hkeyword : ∀ k, kind ≠ .keyword k)
    (word : Bytes) : wordKind word ≠ kind := by
  rcases wordKind_cases word with ⟨k, hk⟩ | hk
  · rw [hk]
    exact (hkeyword k).symm
  · rw [hk]
    exact hname.symm

theorem wordKind_ne_eof (word : Bytes) : wordKind word ≠ .eof :=
  wordKind_ne Kind.noConfusion (fun _ => Kind.noConfusion) word

/-- A token of ordinary code is no comment, not the end, and no part of a template literal. -/
theorem Lexeme.ordinary {exprAllowed : Bool} {kind : Kind} {value : Bytes}
    (h : Lexeme exprAllowed kind value) :
    kind.isComment = false ∧ kind ≠ .eof ∧ kind ≠ .template := by
  cases h with
  | @word chars _ =>
    rcases wordKind_cases (Utf8.encodeChars chars) with ⟨k, hk⟩ | hk
    · rw [hk]
      exact ⟨rfl, Kind.noConfusion, Kind.noConfusion⟩
    · rw [hk]
      exact ⟨rfl, Kind.noConfusion, Kind.noConfusion⟩
  | _ => exact ⟨rfl, Kind.noConfusion, Kind.noConfusion⟩

/-- What the values of strings, regular expressions and punctuators are. -/
theorem Lexeme.value_of_kind {exprAllowed : Bool} {kind : Kind} {value : Bytes}
    (h : Lexeme exprAllowed kind value) :
    (kind = .string → ∃ ns : List Nat, (∀ n ∈ ns, n < 0x110000) ∧ value = ns.flatMap Utf8.encode)
      ∧ (kind = .regexp → ∃ c d gs, c.peek? = some '/' ∧ c.peekSecond? ≠ some '*'
        ∧ c.peekSecond? ≠ some '/' ∧ readRegexp c = .ok d ∧ c.Reads gs d ∧ Utf8.IsDecoding gs
        ∧ value = gs.flatMap (·.bytes))
      ∧ ∀ p, kind = .punct p → p ≠ .dollarBraceL ∧ value = [] := by
  cases h with
  | @word chars _ =>
    rcases wordKind_cases (Utf8.encodeChars chars) with ⟨k, hk⟩ | hk
    all_goals
      rw [hk]
      exact ⟨fun h => (by cases h), fun h => (by cases h), fun p h => (by cases h)⟩
  | string hns =>
    exact ⟨fun _ => ⟨_, hns, rfl⟩, fun h => (by cases h), fun p h => (by cases h)⟩
  | regexp _ hpeek hstar hslashes hread hgs hdec =>
    exact ⟨fun h => (by cases h), fun _ => ⟨_, _, _, hpeek, hstar, hslashes, hread, hgs, hdec, rfl⟩,
      fun p h => (by cases h)⟩
  | punct hp _ =>
    exact ⟨fun h => (by cases h), fun h => (by cases h), fun p h => (by cases h; exact ⟨hp, rfl⟩)⟩
  | _ => exact ⟨fun h => (by cases h), fun h => (by cases h), fun p h => (by cases h)⟩

section Readers

variable {exprAllowed : Bool} {c d : Cursor} {t : Token}

theorem rawTokenTo_eq_ok {kind : Kind} {stop : Except LexError Cursor}
    (h : rawTokenTo kind c stop = .ok (t, d)) : stop = .ok d ∧ t = rawToken kind c d := by
  unfold rawTokenTo at h
  split at h
  next => cases h; exact ⟨rfl, rfl⟩
  next => cases h

theorem readWord_eq_ok (h : readWord c = .ok (t, d)) : ∃ word,
    readName true c = .ok (word, d) ∧ t = ⟨wordKind word, word, c.position, d.position⟩ := by
  unfold readWord at h
  split at h
  next word e hread => cases h; exact ⟨word, hread, rfl⟩
  next => cases h

theorem readQuoted_eq_ok {quote : Char} (h : readQuoted quote c = .ok (t, d)) : ∃ value,
    readString quote c.position c.advance = .ok (value, d)
      ∧ t = ⟨.string, value, c.position, d.position⟩ := by
  unfold readQuoted at h
  split at h
  next value e hread => cases h; exact ⟨value, hread, rfl⟩
  next => cases h

theorem readPrivateName_eq_ok (h : readPrivateName c = .ok (t, d)) : ∃ word,
    c.advance.peek?.any startsName = true ∧ readName true c.advance = .ok (word, d)
      ∧ t = ⟨.privateName, word, c.position, d.position⟩ := by
  unfold readPrivateName at h
  dsimp only at h
  split at h
  next hname =>
    split at h
    next word e hread => cases h; exact ⟨word, hname, hread, rfl⟩
    next => cases h
  next => cases h

theorem readPunctuator_eq_ok {ch : Char} (h : readPunctuator ch c = .ok (t, d)) : ∃ p,
    Punctuator.read? ((c.rest.take 4).map (·.char)) = some p
      ∧ d = c.advanceBy p.label.length ∧ t = bareToken (.punct p) c d := by
  unfold readPunctuator at h
  split at h
  next p hp => cases h; exact ⟨p, hp, rfl, rfl⟩
  next => cases h

/-- The forms in which a token is read from `c` to `d`, each with what is ahead of `c` in front of
it. -/
inductive TokenForm (exprAllowed : Bool) (c : Cursor) : Token → Cursor → Prop where
  | eof (hrest : c.rest = []) : TokenForm exprAllowed c (bareToken .eof c c) c
  | word {word : Bytes} {d : Cursor} (hstart : c.peek?.any startsName = true)
      (hread : readName true c = .ok (word, d)) :
      TokenForm exprAllowed c ⟨wordKind word, word, c.position, d.position⟩ d
  | number {d : Cursor} (hstart : startsNumber c = true) (hread : readNumber c = .ok d) :
      TokenForm exprAllowed c (rawToken .num c d) d
  | string {quote : Char} {value : Bytes} {d : Cursor} (hpeek : c.peek? = some quote)
      (hquote : quote = '"' ∨ quote = '\'')
      (hread : readString quote c.position c.advance = .ok (value, d)) :
      TokenForm exprAllowed c ⟨.string, value, c.position, d.position⟩ d
  | regexp {d : Cursor} (hpeek : c.peek? = some '/') (hexpr : exprAllowed = true)
      (hread : readRegexp c = .ok d) : TokenForm exprAllowed c (rawToken .regexp c d) d
  | privateName {word : Bytes} {d : Cursor} (hpeek : c.peek? = some '#')
      (hstart : c.advance.peek?.any startsName = true)
      (hread : readName true c.advance = .ok (word, d)) :
      TokenForm exprAllowed c ⟨.privateName, word, c.position, d.position⟩ d
  | punct {ch : Char} {p : Punctuator} (hpeek : c.peek? = some ch)
      (hslash : ¬ (ch = '/' ∧ exprAllowed = true))
      (hread : Punctuator.read? ((c.rest.take 4).map (·.char)) = some p) :
      TokenForm exprAllowed c (bareToken (.punct p) c (c.advanceBy p.label.length))
        (c.advanceBy p.label.length)

/-- **Each token that is read has one of the forms.** -/
theorem tokenForm_of_readToken (h : readToken exprAllowed c = .ok (t, d)) :
    TokenForm exprAllowed c t d := by
  unfold readToken at h
  split at h
  next hnone =>
    cases h
    exact .eof (by simpa [peek?_eq_head?] using hnone)
  next ch hpeek =>
    by_cases hname : startsName ch = true
    · rw [if_pos hname] at h
      obtain ⟨word, hread, rfl⟩ := readWord_eq_ok h
      exact .word (by rw [hpeek]; exact hname) hread
    rw [if_neg hname] at h
    by_cases hnumber : startsNumber c = true
    · rw [if_pos hnumber] at h
      obtain ⟨hread, rfl⟩ := rawTokenTo_eq_ok h
      exact .number hnumber hread
    rw [if_neg hnumber] at h
    by_cases hquote : ch = '"' ∨ ch = '\''
    · rw [if_pos hquote] at h
      obtain ⟨value, hread, rfl⟩ := readQuoted_eq_ok h
      exact .string hpeek hquote hread
    rw [if_neg hquote] at h
    by_cases hslash : ch = '/' ∧ exprAllowed = true
    · rw [if_pos hslash] at h
      obtain ⟨hread, rfl⟩ := rawTokenTo_eq_ok h
      exact .regexp (hslash.1 ▸ hpeek) hslash.2 hread
    rw [if_neg hslash] at h
    by_cases hhash : ch = '#'
    · rw [if_pos hhash] at h
      obtain ⟨word, hstart, hread, rfl⟩ := readPrivateName_eq_ok h
      exact .privateName (hhash ▸ hpeek) hstart hread
    · rw [if_neg hhash] at h
      obtain ⟨p, hread, rfl, rfl⟩ := readPunctuator_eq_ok h
      exact .punct hpeek hslash hread

/-- What is known of a token that was read from `c` to `d`. -/
structure TokenRead (exprAllowed : Bool) (c d : Cursor) (t : Token) : Prop where
  start_eq : t.start = c.position
  stop_eq : t.stop = d.position
  reaches : c.Reaches d
  lexeme : t.kind = .eof ∧ t.value = [] ∧ c.rest = []
    ∨ t.kind ≠ .eof ∧ Lexeme exprAllowed t.kind t.value ∧ d.rest.length < c.rest.length

/-- **Each token that is read is a lexeme or the end.** No comment may start at the cursor. -/
theorem readToken_sound (hdec : Utf8.IsDecoding c.rest)
    (hcomment : c.peek? = some '/' → c.peekSecond? ≠ some '*' ∧ c.peekSecond? ≠ some '/')
    (h : readToken exprAllowed c = .ok (t, d)) : TokenRead exprAllowed c d t := by
  cases tokenForm_of_readToken h with
  | eof hrest => exact ⟨rfl, rfl, Reaches.refl c, .inl ⟨rfl, rfl, hrest⟩⟩
  | word hstart hread =>
    obtain ⟨⟨chars, hchars, rfl⟩, hlt⟩ := readName_sound hstart hread
    exact ⟨rfl, rfl, readName_reaches hread, .inr ⟨wordKind_ne_eof _, .word hchars, hlt⟩⟩
  | number hstart hread =>
    obtain ⟨gs, hgs⟩ := readNumber_reaches hread
    have hlt := (readNumber_length_lt hstart hread).1
    refine ⟨rfl, rfl, ⟨gs, hgs⟩, .inr ⟨Kind.noConfusion, ?_, hlt⟩⟩
    simp only [rawToken, hgs.textTo_eq hdec]
    exact .number hstart hread hgs (hgs.isDecoding_left hdec)
  | @string quote value d hpeek _ hread =>
    obtain ⟨ns, rfl, hns⟩ := readString_isCodePoints hread
    have hreach := readString_reaches hread
    have hlt := advance_length_lt (by rw [hpeek]; exact Option.some_ne_none quote)
    exact ⟨rfl, rfl, (reaches_advance c).trans hreach, .inr ⟨Kind.noConfusion, .string hns,
      Nat.lt_of_le_of_lt hreach.suffix.length_le hlt⟩⟩
  | regexp hpeek hexpr hread =>
    obtain ⟨gs, hgs⟩ := readRegexp_reaches hread
    have hlt := Nat.lt_of_lt_of_le (readRegexp_length_lt hread) (advance_length_le c)
    refine ⟨rfl, rfl, ⟨gs, hgs⟩, .inr ⟨Kind.noConfusion, ?_, hlt⟩⟩
    simp only [rawToken, hgs.textTo_eq hdec]
    exact .regexp hexpr hpeek (hcomment hpeek).1 (hcomment hpeek).2 hread hgs
      (hgs.isDecoding_left hdec)
  | privateName _ hstart hread =>
    obtain ⟨⟨chars, hchars, rfl⟩, hlt⟩ := readName_sound hstart hread
    exact ⟨rfl, rfl, (reaches_advance c).trans (readName_reaches hread),
      .inr ⟨Kind.noConfusion, .privateName hchars,
        Nat.lt_of_lt_of_le hlt (advance_length_le c)⟩⟩
  | @punct ch p hpeek hslash hread =>
    obtain ⟨hdollar, hhead⟩ := Punctuator.read?_sound hread
    obtain ⟨g, gs, hrest, hchar⟩ := rest_of_peek? hpeek
    refine ⟨rfl, rfl, reaches_advanceBy _ c,
      .inr ⟨Kind.noConfusion, .punct hdollar fun hsl => ?_, ?_⟩⟩
    -- a slash where an expression may stand is left to regular expressions
    · have hfirst : g.char = '/' := by simpa [hrest] using hhead hsl
      rw [← Bool.not_eq_true]
      exact fun hexpr => hslash ⟨hchar ▸ hfirst, hexpr⟩
    · have hpos := p.label_length_pos
      rw [advanceBy_rest, List.length_drop, hrest, List.length_cons]
      omega

end Readers

end Scanner

end ScriptTidy
