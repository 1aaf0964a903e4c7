import ScriptTidy.Proofs.Scanner.Spelling

/-!
# Strings are read back from their texts

A string's value is a sequence of code points in which surrogates may stand alone. It is written
code point by code point (`escape_flatMap`), each as itself or as an escape (`EscapedAs`), and
each is read back as what it was, except that two escaped surrogates in a row would be read as
the one character they form together.

* `readString_joined` : the written string is read to its end, as the string with such pairs joined.
* `readsAs_text` : so every token of ordinary code is read back from its text.
-/

namespace ScriptTidy

namespace StringLiteral

/-- The number is half of a pair of UTF-16 units. -/
def isSurrogate (n : Nat) : Prop := 0xD800 ≤ n ∧ n < 0xE000

instance (n : Nat) : Decidable (isSurrogate n) := inferInstanceAs (Decidable (_ ∧ _))

/-- Four digits are enough for surrogates and separators. -/
theorem lt_of_isSurrogate_or {n : Nat} (h : isSurrogate n ∨ n = 0x2028 ∨ n = 0x2029) :
    n < 0x10000 := by
  unfold isSurrogate at h
  omega

/-- A code point as it is written between quotes. -/
def escapePoint (n : Nat) : Bytes :=
  if isSurrogate n then utf8 "\\u" ++ hexPadded upperHexDigit 4 n
  else (escape? (Char.ofNat n)).getD (Utf8.encode n)

theorem isValidChar_of_not_isSurrogate {n : Nat} (h : n < 0x110000) (hs : ¬ isSurrogate n) :
    n.isValidChar := by
  unfold isSurrogate at hs
  unfold Nat.isValidChar
  omega

/-- A glyph that does not start like a surrogate is written on its own. -/
theorem escapeGlyphs_cons {g : Glyph} (h : g.bytes ≠ [0xED]) (gs : List Glyph) :
    escapeGlyphs (g :: gs) = escapeGlyph g ++ escapeGlyphs gs := by
  match gs with
  | [] => rfl
  | [_] => rfl
  | k :: l :: gs =>
    have hnone : surrogate? g k l = none := by
      unfold surrogate?
      split
      · next a b c ha hb hc =>
        rw [if_neg]
        rintro ⟨rfl, _⟩
        exact h ha
      · rfl
    rw [escapeGlyphs, hnone]

theorem surrogate?_encode {n : Nat} (h : isSurrogate n) :
    surrogate? ⟨replacementChar, [0xED]⟩
      ⟨replacementChar, [(0x80 + n / 0x40 % 0x40).toUInt8]⟩
      ⟨replacementChar, [(0x80 + n % 0x40).toUInt8]⟩ = some n := by
  unfold isSurrogate at h
  have hb := Utf8.toNat_toUInt8 (n := 0x80 + n / 0x40 % 0x40) (by omega)
  have hc := Utf8.toNat_toUInt8 (n := 0x80 + n % 0x40) (by omega)
  unfold surrogate?
  dsimp only
  rw [if_pos]
  · rw [Utf8.tailBits, Utf8.tailBits, hb, hc]
    congr 1
    omega
  · refine ⟨rfl, ?_, ?_, ?_⟩
    · rw [UInt8.le_iff_toNat_le, hb]
      show 0xA0 ≤ _
      omega
    · rw [UInt8.le_iff_toNat_le, hb]
      show _ ≤ 0xBF
      omega
    · rw [Utf8.isTail_iff, hc]
      omega

theorem escapeGlyphs_encode {n : Nat} (h : n < 0x110000) (r : Bytes) :
    escapeGlyphs (Utf8.glyphs (Utf8.encode n ++ r)) =
      escapePoint n ++ escapeGlyphs (Utf8.glyphs r) := by
  by_cases hs : isSurrogate n
  · rw [Utf8.glyphs_encode_surrogate hs.1 hs.2, escapeGlyphs, surrogate?_encode hs, escapePoint,
      if_pos hs]
  · have hvalid := isValidChar_of_not_isSurrogate h hs
    rw [Scanner.encode_eq_encodeChar hvalid, Utf8.glyphs_encodeChar, escapeGlyphs_cons, escapePoint,
      if_neg hs, escapeGlyph, Scanner.encode_eq_encodeChar hvalid]
    -- a single byte of a character is ASCII
    dsimp only
    intro hED
    rw [Utf8.encodeChar, Utf8.toNat_charOfNat hvalid] at hED
    unfold Utf8.encode at hED
    split at hED
    next hlt =>
      have := congrArg UInt8.toNat (List.cons.inj hED).1
      rw [Utf8.toNat_toUInt8 (by omega)] at this
      have h237 : (0xED : UInt8).toNat = 237 := rfl
      omega
    next =>
      repeat' split at hED
      all_goals
        have := congrArg List.length hED
        simp at this

theorem escape_flatMap {ns : List Nat} (h : ∀ n ∈ ns, n < 0x110000) :
    escape (ns.flatMap Utf8.encode) = ns.flatMap escapePoint := by
  unfold escape
  induction ns with
  | nil =>
    rw [List.flatMap_nil, List.flatMap_nil, Utf8.glyphs_nil]
    rfl
  | cons n ns ih =>
    rw [List.flatMap_cons, List.flatMap_cons, escapeGlyphs_encode (h n List.mem_cons_self),
      ih fun m hm => h m (List.mem_cons_of_mem _ hm)]

/-- How a code point is written between single quotes. -/
inductive EscapedAs : Nat → Bytes → Prop
  | literal {ch : Char} (h : escape? ch = none) : EscapedAs ch.toNat (Utf8.encodeChar ch)
  | control {x : Char} {b : UInt8} (h : Scanner.controlEscape? x = some b) (hx : x.toNat < 0x80) :
    EscapedAs b.toNat (Utf8.encodeChars ['\\', x])
  | itself {x : Char} (h : x = '\\' ∨ x = '\'') :
    EscapedAs x.toNat (Utf8.encodeChars ['\\', x])
  | null : EscapedAs 0 (Utf8.encodeChars ['\\', 'x', '0', '0'])
  | unicode {n : Nat} (h : isSurrogate n ∨ n = 0x2028 ∨ n = 0x2029) :
    EscapedAs n (Utf8.encodeChars ['\\', 'u'] ++ hexPadded upperHexDigit 4 n)

theorem escapePoint_escapedAs {n : Nat} (h : n < 0x110000) : EscapedAs n (escapePoint n) := by
  unfold escapePoint
  by_cases hs : isSurrogate n
  · rw [if_pos hs]
    exact .unicode (Or.inl hs)
  · rw [if_neg hs]
    have hn := Utf8.toNat_charOfNat (isValidChar_of_not_isSurrogate h hs)
    cases he : escape? (Char.ofNat n) with
    | none =>
      have := EscapedAs.literal he
      rw [hn] at this
      rw [Option.getD_none, Scanner.encode_eq_encodeChar (isValidChar_of_not_isSurrogate h hs)]
      exact this
    | some bytes =>
      rw [Option.getD_some]
      -- one case for each character that is escaped
      unfold escape? at he
      rw [hn] at he
      split at he
      · cases he
        exact .itself (x := '\\') (Or.inl rfl)
      · cases he
        exact .control (x := 'n') rfl (by decide)
      · cases he
        exact .control (x := 'r') rfl (by decide)
      · cases he
        exact .control (x := 't') rfl (by decide)
      · cases he
        exact .control (x := 'v') rfl (by decide)
      · cases he
        exact .control (x := 'f') rfl (by decide)
      · cases he
        exact .null
      · cases he
        exact .itself (x := '\'') (Or.inr rfl)
      · cases he
        exact .unicode (Or.inr (Or.inl rfl))
      · cases he
        exact .unicode (Or.inr (Or.inr rfl))
      · cases he

end StringLiteral

namespace Scanner

open Cursor StringLiteral

variable {c d : Cursor} {rest : Bytes}

/-! ## Reading digits -/

theorem hexValue?_upperHexDigit {x : Nat} (h : x < 16) :
    hexValue? (Char.ofNat (upperHexDigit x).toNat) = some x ∧ upperHexDigit x < 0x80
      ∧ Char.ofNat (upperHexDigit x).toNat ≠ '\x7b' := by
  have hcheck : ∀ y ∈ List.range 16, hexValue? (Char.ofNat (upperHexDigit y).toNat) = some y
      ∧ upperHexDigit y < 0x80 ∧ Char.ofNat (upperHexDigit y).toNat ≠ '\x7b' := by decide
  exact hcheck x (List.mem_range.mpr h)

theorem readHex_complete {digits : List Nat} (h : ∀ x ∈ digits, x < 16) (value : Nat)
    (hc : c.rest = Utf8.glyphs (digits.map upperHexDigit ++ rest)) :
    ∃ d, readHex digits.length value c = .ok (digits.foldl (fun v x => v * 16 + x) value, d)
      ∧ d.rest = Utf8.glyphs rest := by
  induction digits generalizing c value with
  | nil => exact ⟨c, rfl, hc⟩
  | cons x digits ih =>
    obtain ⟨hx, hascii, _⟩ := hexValue?_upperHexDigit (h x List.mem_cons_self)
    rw [List.map_cons, List.cons_append, Utf8.glyphs_ascii_cons hascii] at hc
    obtain ⟨d, hd, hrest⟩ := ih (fun y hy => h y (List.mem_cons_of_mem _ hy)) (value * 16 + x)
      (c := c.advance) (by rw [advance_rest, hc]; rfl)
    refine ⟨d, ?_, hrest⟩
    rw [List.length_cons, readHex, next?_of_cons hc]
    dsimp only
    rw [hx]
    exact hd

/-- The four digits of a number of sixteen bits. -/
theorem hexPadded_four {n : Nat} (h : n < 0x10000) :
    ∃ digits : List Nat, digits.length = 4 ∧ (∀ x ∈ digits, x < 16)
      ∧ hexPadded upperHexDigit 4 n = digits.map upperHexDigit
      ∧ digits.foldl (fun v x => v * 16 + x) 0 = n := by
  refine ⟨[n / 16 / 16 / 16 % 16, n / 16 / 16 % 16, n / 16 % 16, n % 16], rfl, ?_, ?_, ?_⟩
  · intro x hx
    simp only [List.mem_cons, List.not_mem_nil, or_false] at hx
    rcases hx with rfl | rfl | rfl | rfl
    all_goals exact Nat.mod_lt _ (by decide)
  · simp [hexPadded]
  · simp only [List.foldl_cons, List.foldl_nil]
    omega

theorem readCodePoint_complete {n : Nat} (h : n < 0x10000)
    (hc : c.rest = Utf8.glyphs (hexPadded upperHexDigit 4 n ++ rest)) :
    ∃ d, readCodePoint c = .ok (n, d) ∧ d.rest = Utf8.glyphs rest := by
  obtain ⟨digits, hlen, hdigits, hhex, hvalue⟩ := hexPadded_four h
  rw [hhex] at hc
  obtain ⟨d, hd, hrest⟩ := readHex_complete hdigits 0 hc
  rw [hlen, hvalue] at hd
  refine ⟨d, ?_, hrest⟩
  match digits, hlen with
  | x :: digits, _ =>
    obtain ⟨_, hascii, hbrace⟩ := hexValue?_upperHexDigit (hdigits x List.mem_cons_self)
    rw [List.map_cons, List.cons_append, Utf8.glyphs_ascii_cons hascii] at hc
    rw [readCodePoint, if_neg]
    · exact hd
    · rw [peek?_of_cons hc]
      exact fun h => hbrace (Option.some.inj h)

/-! ## Reading code points -/

variable {start : Position} {n : Nat} {text s : Bytes}

theorem readString_char {g : Glyph} {t : List Glyph} (hc : c.rest = g :: t)
    (hquote : g.char ≠ '\'') (hline : ¬ (g.char = '\n' ∨ g.char = '\r')) (hslash : g.char ≠ '\\') :
    readString '\'' start c =
      withText (Utf8.encodeChar g.char) (readString '\'' start c.advance) := by
  rw [readString_eq, next?_of_cons hc]
  dsimp only
  rw [if_neg hquote, if_neg hline, if_neg hslash]

theorem readString_escape {t : List Glyph} (hc : c.rest = ⟨'\\', Utf8.encodeChar '\\'⟩ :: t)
    (he : readEscape c.advance = .ok (text, d)) :
    readString '\'' start c = withText text (readString '\'' start d) := by
  rw [readString_eq, next?_of_cons hc]
  dsimp only
  rw [if_neg (by decide), if_neg (by decide), if_pos rfl, he]

theorem readEscape_control {x : Char} {b : UInt8} {t : List Glyph}
    (hc : c.rest = ⟨x, Utf8.encodeChar x⟩ :: t) (h : controlEscape? x = some b) :
    readEscape c = .ok ([b], c.advance) := by
  rw [readEscape, next?_of_cons hc]
  dsimp only
  rw [h]

theorem readEscape_itself {x : Char} {t : List Glyph} (hc : c.rest = ⟨x, Utf8.encodeChar x⟩ :: t)
    (h : x = '\\' ∨ x = '\'') : readEscape c = .ok (Utf8.encodeChar x, c.advance) := by
  rw [readEscape, next?_of_cons hc]
  rcases h with rfl | rfl
  · rfl
  · rfl

theorem readEscape_null {t : List Glyph} (hc : c.rest = charGlyphs ['x', '0', '0'] ++ t) :
    ∃ d, readEscape c = .ok (Utf8.encode 0, d) ∧ d.rest = t := by
  have hfirst : c.advance.rest = charGlyphs ['0', '0'] ++ t := by
    rw [advance_rest, hc]
    rfl
  have hsecond : c.advance.advance.rest = charGlyphs ['0'] ++ t := by
    rw [advance_rest, hfirst]
    rfl
  have hhex : readHex 2 0 c.advance = .ok (0, c.advance.advance.advance) := by
    rw [readHex, next?_of_cons hfirst]
    dsimp only
    rw [show hexValue? '0' = some 0 from rfl]
    dsimp only
    rw [readHex, next?_of_cons hsecond]
    rfl
  refine ⟨c.advance.advance.advance, ?_, ?_⟩
  · rw [readEscape, next?_of_cons hc]
    dsimp only
    rw [show controlEscape? 'x' = none from rfl]
    dsimp only
    rw [if_pos rfl, hhex]
  · rw [advance_rest, hsecond]
    rfl

/-- Behind the digits of an escape it depends on the next escape what is read. -/
theorem readEscape_unicode (hn : n < 0x10000)
    (hc : c.rest = ⟨'u', Utf8.encodeChar 'u'⟩ ::
      Utf8.glyphs (hexPadded upperHexDigit 4 n ++ s)) :
    ∃ d, d.rest = Utf8.glyphs s
      ∧ (readLowHalf? n d = none → readEscape c = .ok (Utf8.encode n, d))
      ∧ ∀ m e, readLowHalf? n d = some (m, e) → readEscape c = .ok (Utf8.encode m, e) := by
  obtain ⟨d, hd, hrest⟩ := readCodePoint_complete hn (c := c.advance)
    (by rw [advance_rest, hc]; rfl)
  have hescape : readEscape c = readUnicodeEscape c.advance := by
    rw [readEscape, next?_of_cons hc]
    rfl
  rw [hescape, readUnicodeEscape, hd]
  dsimp only
  refine ⟨d, hrest, fun hnone => ?_, fun m e hsome => ?_⟩
  · rw [hnone]
  · rw [hsome]

/-- The text of an escaped code point, followed by something, starts a pair of escaped
surrogates only if it is a low surrogate itself. -/
theorem readLowHalf?_escapedAs {m : Nat} (h : EscapedAs m text) (hm : isLowSurrogate m = false)
    (hc : c.rest = Utf8.glyphs (text ++ s)) : readLowHalf? n c = none := by
  unfold readLowHalf?
  split
  next hcond =>
    simp only [Bool.and_eq_true, beq_iff_eq] at hcond
    obtain ⟨⟨_, hpeek⟩, hsecond⟩ := hcond
    -- only an escape with four digits looks like a half, and its code point is known
    cases h with
    | @literal ch hch =>
      rw [Utf8.glyphs_encodeChar] at hc
      rw [peek?_of_cons hc, Option.some.injEq] at hpeek
      dsimp only at hpeek
      rw [hpeek] at hch
      cases hch
    | @control x b hx _ =>
      rw [Utf8.glyphs_encodeChars] at hc
      rw [peekSecond?_of_cons hc, Option.some.injEq] at hsecond
      dsimp only at hsecond
      rw [hsecond] at hx
      cases hx
    | @itself x hx =>
      rw [Utf8.glyphs_encodeChars] at hc
      rw [peekSecond?_of_cons hc, Option.some.injEq] at hsecond
      rcases hx with rfl | rfl
      · exact absurd hsecond (by decide)
      · exact absurd hsecond (by decide)
    | null =>
      rw [Utf8.glyphs_encodeChars] at hc
      rw [peekSecond?_of_cons hc, Option.some.injEq] at hsecond
      exact absurd hsecond (by decide)
    | unicode hu =>
      rw [List.append_assoc, Utf8.glyphs_encodeChars] at hc
      obtain ⟨d, hd, _⟩ := readCodePoint_complete (lt_of_isSurrogate_or hu) (c := c.advanceBy 2)
        (by rw [advanceBy_rest, hc]; rfl)
      rw [hd]
      dsimp only
      rw [hm]
      rfl
  next => rfl

/-- **Each code point is read back as what it was**, unless it is the first half of a pair. -/
theorem readString_escapedAs (h : EscapedAs n text) (hc : c.rest = Utf8.glyphs (text ++ s))
    (hpair : ∀ d : Cursor, d.rest = Utf8.glyphs s → readLowHalf? n d = none) :
    ∃ d, d.rest = Utf8.glyphs s
      ∧ readString '\'' start c = withText (Utf8.encode n) (readString '\'' start d) := by
  cases h with
  | @literal ch hch =>
    rw [Utf8.glyphs_encodeChar] at hc
    have hne : ∀ x : Char, escape? x ≠ none → ch ≠ x := by
      rintro x hx rfl
      exact hx hch
    refine ⟨c.advance, by rw [advance_rest, hc]; rfl, ?_⟩
    refine readString_char hc (hne _ (by decide)) ?_ (hne _ (by decide))
    rintro (h | h)
    · exact hne _ (by decide) h
    · exact hne _ (by decide) h
  | @control x b hx _ =>
    rw [Utf8.glyphs_encodeChars] at hc
    have hadv : c.advance.rest = ⟨x, Utf8.encodeChar x⟩ :: Utf8.glyphs s := by
      rw [advance_rest, hc]
      rfl
    refine ⟨c.advance.advance, by rw [advance_rest, hadv]; rfl, ?_⟩
    rw [encode_controlEscape? hx]
    exact readString_escape hc (readEscape_control hadv hx)
  | @itself x hx =>
    rw [Utf8.glyphs_encodeChars] at hc
    have hadv : c.advance.rest = ⟨x, Utf8.encodeChar x⟩ :: Utf8.glyphs s := by
      rw [advance_rest, hc]
      rfl
    refine ⟨c.advance.advance, by rw [advance_rest, hadv]; rfl, ?_⟩
    exact readString_escape hc (readEscape_itself hadv hx)
  | null =>
    rw [Utf8.glyphs_encodeChars] at hc
    have hadv : c.advance.rest = charGlyphs ['x', '0', '0'] ++ Utf8.glyphs s := by
      rw [advance_rest, hc]
      rfl
    obtain ⟨d, hd, hrest⟩ := readEscape_null hadv
    exact ⟨d, hrest, readString_escape hc hd⟩
  | unicode hu =>
    rw [List.append_assoc, Utf8.glyphs_encodeChars] at hc
    have hadv : c.advance.rest = ⟨'u', Utf8.encodeChar 'u'⟩ ::
        Utf8.glyphs (hexPadded upperHexDigit 4 n ++ s) := by
      rw [advance_rest, hc]
      rfl
    obtain ⟨d, hrest, hescape, -⟩ := readEscape_unicode (lt_of_isSurrogate_or hu) hadv
    exact ⟨d, hrest, readString_escape hc (hescape (hpair d hrest))⟩

/-- No high surrogate stands in front of a low one. -/
def NoPair (ns : List Nat) : Prop :=
  ∀ hi lo, [hi, lo] <:+: ns → isHighSurrogate hi = true → isLowSurrogate lo = false

theorem NoPair.tail {ns : List Nat} (h : NoPair (n :: ns)) : NoPair ns :=
  fun hi lo hpair => h hi lo (hpair.trans (List.suffix_cons n ns).isInfix)

theorem readLowHalf?_of_not_high (h : isHighSurrogate n = false) : readLowHalf? n c = none := by
  unfold readLowHalf?
  rw [h]
  rfl

/-- A code point is taken on its own if none follows that forms a pair with it. -/
theorem readLowHalf?_flatMap {ns : List Nat} (hns : ∀ m ∈ ns, m < 0x110000)
    (hpair : isHighSurrogate n = true → ∀ m ∈ ns.head?, isLowSurrogate m = false)
    (hd : d.rest = Utf8.glyphs (ns.flatMap escapePoint ++ 0x27 :: rest)) :
    readLowHalf? n d = none := by
  cases hhigh : isHighSurrogate n with
  | false => exact readLowHalf?_of_not_high hhigh
  | true =>
    cases ns with
    | nil =>
      rw [List.flatMap_nil, List.nil_append, Utf8.glyphs_ascii_cons (by decide)] at hd
      unfold readLowHalf?
      rw [peek?_of_cons hd]
      simp
    | cons m ns =>
      rw [List.flatMap_cons, List.append_assoc] at hd
      exact readLowHalf?_escapedAs (escapePoint_escapedAs (hns m List.mem_cons_self))
        (hpair hhigh m rfl) hd

/-- The quote at the end of what is written for a string ends it. -/
theorem readString_close (hc : c.rest = Utf8.glyphs (0x27 :: rest)) :
    ∃ d, readString '\'' start c = .ok ([], d) ∧ d.rest = Utf8.glyphs rest := by
  rw [Utf8.glyphs_ascii_cons (by decide)] at hc
  refine ⟨c.advance, ?_, by rw [advance_rest, hc]; rfl⟩
  rw [readString_eq, next?_of_cons hc]
  exact if_pos (by decide)

/-- Two escaped surrogates that form a pair are read together. -/
theorem readString_pair {lo : Nat} (hhigh : isHighSurrogate n = true)
    (hlow : isLowSurrogate lo = true)
    (hc : c.rest = Utf8.glyphs (escapePoint n ++ (escapePoint lo ++ s))) :
    ∃ d, d.rest = Utf8.glyphs s ∧ readString '\'' start c =
      withText (Utf8.encode (joinSurrogates n lo)) (readString '\'' start d) := by
  have hn : isSurrogate n ∧ isSurrogate lo := by
    unfold isHighSurrogate at hhigh
    unfold isLowSurrogate at hlow
    simp only [Bool.and_eq_true, decide_eq_true_eq] at hhigh hlow
    unfold isSurrogate
    omega
  have hlabel : ∀ x : Bytes, Utf8.glyphs (utf8 "\\u" ++ x) =
      charGlyphs ['\\', 'u'] ++ Utf8.glyphs x := fun x => glyphs_utf8_append (by decide) x
  rw [escapePoint, if_pos hn.1, escapePoint, if_pos hn.2, List.append_assoc, List.append_assoc,
    hlabel] at hc
  have hadv : c.advance.rest = ⟨'u', Utf8.encodeChar 'u'⟩ :: Utf8.glyphs
      (hexPadded upperHexDigit 4 n ++ (utf8 "\\u" ++ (hexPadded upperHexDigit 4 lo ++ s))) := by
    rw [advance_rest, hc]
    rfl
  obtain ⟨d, hrest, -, hescape⟩ := readEscape_unicode (lt_of_isSurrogate_or (.inl hn.1)) hadv
  rw [hlabel] at hrest
  obtain ⟨e, he, hrest'⟩ := readCodePoint_complete (lt_of_isSurrogate_or (.inl hn.2))
    (c := d.advanceBy 2) (by rw [advanceBy_rest, hrest]; rfl)
  -- the second escape is the low half that the reader looks for
  have hhalf : readLowHalf? n d = some (joinSurrogates n lo, e) := by
    unfold readLowHalf?
    rw [hhigh, peek?_of_cons hrest, peekSecond?_of_cons hrest, he]
    exact if_pos hlow
  exact ⟨e, hrest', readString_escape hc (hescape _ e hhalf)⟩

/-- A code point that forms no pair with the next one is read on its own. -/
theorem readString_single {ns : List Nat} (hns : ∀ m ∈ n :: ns, m < 0x110000)
    (hpair : isHighSurrogate n = true → ∀ m ∈ ns.head?, isLowSurrogate m = false)
    (hc : c.rest = Utf8.glyphs ((n :: ns).flatMap escapePoint ++ 0x27 :: rest)) :
    ∃ d, d.rest = Utf8.glyphs (ns.flatMap escapePoint ++ 0x27 :: rest)
      ∧ readString '\'' start c = withText (Utf8.encode n) (readString '\'' start d) := by
  rw [List.flatMap_cons, List.append_assoc] at hc
  exact readString_escapedAs (escapePoint_escapedAs (hns n List.mem_cons_self)) hc fun d hd =>
    readLowHalf?_flatMap (fun m hm => hns m (List.mem_cons_of_mem _ hm)) hpair hd

/-- What is read for one code point stands in front of what is read for those behind it. -/
theorem readString_cons {ms : List Nat} {e : Cursor}
    (hstep : readString '\'' start c = withText (Utf8.encode n) (readString '\'' start e))
    (he : ∃ d, readString '\'' start e = .ok (ms.flatMap Utf8.encode, d)
      ∧ d.rest = Utf8.glyphs rest) :
    ∃ d, readString '\'' start c = .ok ((n :: ms).flatMap Utf8.encode, d)
      ∧ d.rest = Utf8.glyphs rest := by
  obtain ⟨d, hd, hrest⟩ := he
  refine ⟨d, ?_, hrest⟩
  rw [hstep, hd]
  rfl

/-- Code points with each pair of surrogates replaced by the character that it stands for. -/
def joinPairs : List Nat → List Nat
  | [] => []
  | [n] => [n]
  | hi :: lo :: rest =>
    if isHighSurrogate hi && isLowSurrogate lo then joinSurrogates hi lo :: joinPairs rest
    else hi :: joinPairs (lo :: rest)

theorem joinPairs_of_noPair {ns : List Nat} (h : NoPair ns) : joinPairs ns = ns := by
  fun_induction joinPairs ns with
  | case1 => rfl
  | case2 => rfl
  | case3 hi lo rest hpair =>
    rw [Bool.and_eq_true] at hpair
    rw [h hi lo ⟨[], rest, rfl⟩ hpair.1] at hpair
    cases hpair.2
  | case4 hi lo rest hpair ih => rw [ih h.tail]

/-- **What is written for a string is read to its end**, as the string with its pairs of
surrogates joined. -/
theorem readString_joined (start : Position) {ns : List Nat} (hns : ∀ n ∈ ns, n < 0x110000)
    (hc : c.rest = Utf8.glyphs (ns.flatMap escapePoint ++ 0x27 :: rest)) :
    ∃ d, readString '\'' start c = .ok ((joinPairs ns).flatMap Utf8.encode, d)
      ∧ d.rest = Utf8.glyphs rest := by
  fun_induction joinPairs ns generalizing c with
  | case1 => exact readString_close hc
  | case2 n =>
    obtain ⟨e, he, hstep⟩ := readString_single hns (fun _ m hm => by cases hm) hc
    exact readString_cons hstep (readString_close he)
  | case3 hi lo ns hpair ih =>
    rw [Bool.and_eq_true] at hpair
    rw [List.flatMap_cons, List.flatMap_cons, List.append_assoc, List.append_assoc] at hc
    obtain ⟨e, he, hstep⟩ := readString_pair hpair.1 hpair.2 hc
    exact readString_cons hstep (ih (fun n hn => hns n (by simp [hn])) he)
  | case4 hi lo ns hpair ih =>
    rw [Bool.and_eq_true, not_and, Bool.not_eq_true] at hpair
    obtain ⟨e, he, hstep⟩ := readString_single hns (fun hhigh m hm => by
      obtain rfl : lo = m := Option.some.inj hm
      exact hpair hhigh) hc
    exact readString_cons hstep (ih (fun n hn => hns n (List.mem_cons_of_mem _ hn)) he)

/-! ## Values with pairs of surrogates -/

/-- A high surrogate in three bytes is directly followed by a low one. -/
def HasSurrogatePair (v : Bytes) : Prop :=
  ∃ a b c d : UInt8, [0xED, a, b, 0xED, c, d] <:+: v ∧ 0xA0 ≤ a ∧ a ≤ 0xAF ∧ Utf8.isTail b = true
    ∧ 0xB0 ≤ c ∧ c ≤ 0xBF ∧ Utf8.isTail d = true

theorem encode_surrogate (h : isSurrogate n) : Utf8.encode n =
    [0xED, (0x80 + n / 0x40 % 0x40).toUInt8, (0x80 + n % 0x40).toUInt8] := by
  unfold isSurrogate at h
  have hlead : n / 0x1000 = 0xD := by omega
  rw [Utf8.encode, if_neg (by omega), if_neg (by omega), if_pos (by omega), hlead]
  rfl

theorem noPair_of_not_hasSurrogatePair {ns : List Nat}
    (h : ¬ HasSurrogatePair (ns.flatMap Utf8.encode)) : NoPair ns := by
  intro hi lo hinfix hhigh
  rw [← Bool.not_eq_true]
  intro hlow
  simp only [isHighSurrogate, isLowSurrogate, Bool.and_eq_true, decide_eq_true_eq] at hhigh hlow
  refine h ⟨(0x80 + hi / 0x40 % 0x40).toUInt8, (0x80 + hi % 0x40).toUInt8,
    (0x80 + lo / 0x40 % 0x40).toUInt8, (0x80 + lo % 0x40).toUInt8, ?_, ?_⟩
  · obtain ⟨x, y, rfl⟩ := hinfix
    refine ⟨x.flatMap Utf8.encode, y.flatMap Utf8.encode, ?_⟩
    rw [List.flatMap_append, List.flatMap_append, List.flatMap_cons, List.flatMap_cons,
      List.flatMap_nil, encode_surrogate ⟨hhigh.1, by omega⟩, encode_surrogate ⟨by omega, hlow.2⟩]
    rfl
  · have h1 := Utf8.toNat_toUInt8 (n := 0x80 + hi / 0x40 % 0x40) (by omega)
    have h2 := Utf8.toNat_toUInt8 (n := 0x80 + hi % 0x40) (by omega)
    have h3 := Utf8.toNat_toUInt8 (n := 0x80 + lo / 0x40 % 0x40) (by omega)
    have h4 := Utf8.toNat_toUInt8 (n := 0x80 + lo % 0x40) (by omega)
    simp only [UInt8.le_iff_toNat_le, Utf8.isTail_iff, h1, h2, h3, h4, UInt8.reduceToNat]
    omega

/-- A written string is read as the string with its pairs of surrogates joined. -/
theorem readsAs_string {exprAllowed : Bool} {ns : List Nat} (hns : ∀ n ∈ ns, n < 0x110000) :
    ReadsAs exprAllowed .string ((joinPairs ns).flatMap Utf8.encode)
      (quote (ns.flatMap Utf8.encode)) rest := by
  unfold quote
  rw [escape_flatMap hns]
  refine ⟨by simp, fun c hc => ?_⟩
  rw [List.append_assoc, List.append_assoc, List.singleton_append, List.singleton_append,
    Utf8.glyphs_ascii_cons (by decide)] at hc
  have hpeek : c.peek? = some '\'' := peek?_of_cons hc
  obtain ⟨d, hd, hrest⟩ := readString_joined c.position (c := c.advance) hns
    (by rw [advance_rest, hc]; rfl)
  refine ⟨triviaEnds_of_peek? hpeek (by decide) (by decide) (by decide),
    ⟨.string, _, c.position, d.position⟩, d, ?_, rfl, rfl, hrest⟩
  have hnumber := startsNumber_eq_false hpeek (by decide) (fun h => absurd h (by decide))
  rw [readToken_other hpeek (by decide) hnumber, if_pos (Or.inr rfl), readQuoted, hd]
  rfl

/-! ## All tokens -/

/-- **The text of a token is read as the token**, in front of anything that may follow it. -/
theorem readsAs_text {exprAllowed : Bool} {t : Token} (h : Lexeme exprAllowed t.kind t.value)
    (hpair : t.kind = .string → ¬ HasSurrogatePair t.value) (hsep : Separated t.kind rest) :
    ReadsAs exprAllowed t.kind t.value t.text rest := by
  obtain ⟨kind, value, first, last⟩ := t
  dsimp only at h hpair hsep ⊢
  unfold Token.text
  dsimp only
  cases h with
  | @word chars hchars =>
    have hne := encodeChars_ne_nil hchars
    rcases wordKind_cases (Utf8.encodeChars chars) with ⟨k, hk⟩ | hk
    · rw [hk] at hsep
      have hread : ReadsAs exprAllowed _ _ _ rest := readsAs_word hchars hsep.1 hsep.2
      rw [hk] at hread ⊢
      dsimp only
      rw [if_neg (by simpa using hne)]
      exact hread
    · rw [hk] at hsep
      have hread : ReadsAs exprAllowed _ _ _ rest := readsAs_word hchars hsep.1 hsep.2
      rw [hk] at hread ⊢
      exact hread
  | privateName hchars => exact readsAs_privateName hchars hsep.1 hsep.2
  | number hstart hread hgs hdec =>
    exact readsAs_number hstart hread hgs hdec hsep.1 hsep.2.1 hsep.2.2
  | string hns =>
    have hread : ReadsAs exprAllowed _ _ _ rest := readsAs_string hns
    -- without a pair, what is read back is what was written
    rw [joinPairs_of_noPair (noPair_of_not_hasSurrogatePair (hpair rfl))] at hread
    exact hread
  | regexp hexpr hslash hstar hslashes hread hgs hdec =>
    subst hexpr
    exact readsAs_regexp hslash hstar hslashes hread hgs hdec hsep.1 hsep.2
  | punct hp hslash => exact readsAs_punct hp hslash hsep

end Scanner

end ScriptTidy
