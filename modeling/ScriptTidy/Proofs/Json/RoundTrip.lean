import ScriptTidy.Json.Read
import ScriptTidy.Proofs.Text.Integer

/-!
# JSON that is written is read back

Writing keeps what a value says, as long as its texts consist of characters and its numbers are
integers: the reader gives the value again. One lemma for each form of value says what the reader
makes of its text in front of another one, given fuel for the text; what follows must not run into
a number, so it starts as `Delimits` says.

* `read_render` : a value that is written is read back.
* `isText_of_read` : the strings in an object that is read consist of characters.
-/

namespace ScriptTidy

/-- Whether the bytes are those of a sequence of characters. -/
def Utf8.IsText (text : Bytes) : Prop := ∃ cs, text = encodeChars cs

namespace JsonValue

open Utf8 (IsText encodeChar encodeChars)

/-! ## Texts -/

theorem hexByte?_lowerHexDigit {d : Nat} (h : d < 16) : hexByte? (lowerHexDigit d) = some d := by
  have hcheck : ∀ d ∈ List.range 16, hexByte? (lowerHexDigit d) = some d := by decide
  exact hcheck d (List.mem_range.mpr h)

theorem unicodeEscape?_hexPadded {n : Nat} (h : n < 0x10000) (x : Bytes) :
    unicodeEscape? (0x5C :: 0x75 :: (hexPadded lowerHexDigit 4 n ++ x)) = some n := by
  have hdigit : ∀ m, hexByte? (lowerHexDigit (m % 16)) = some (m % 16) :=
    fun m => hexByte?_lowerHexDigit (Nat.mod_lt m (by omega))
  simp only [hexPadded, List.nil_append, List.cons_append, unicodeEscape?, hdigit]
  congr 1
  omega

theorem stringBody_letter {letter b : UInt8} (h : escapedByte? letter = some b)
    (hne : letter ≠ 0x75) (x : Bytes) :
    stringBody (0x5C :: letter :: x) = (stringBody x).map fun (s, r) => (b :: s, r) := by
  rw [stringBody]
  simp only [hne, if_false, h]

theorem stringBody_number {n : Nat} (h : n < 0x10000) (hn : ¬ (0xD800 ≤ n ∧ n < 0xE000))
    (x : Bytes) :
    stringBody (0x5C :: 0x75 :: (hexPadded lowerHexDigit 4 n ++ x)) =
      (stringBody x).map fun (s, r) => (encodeChar (Char.ofNat n) ++ s, r) := by
  have hlength : (hexPadded lowerHexDigit 4 n).length = 4 := by simp [hexPadded]
  have hdrop : (hexPadded lowerHexDigit 4 n ++ x).drop 4 = x := List.drop_left' hlength
  rw [stringBody]
  simp only [if_true, unicodeEscape?_hexPadded h, escapedChar, hn, if_false, hdrop,
    Bool.false_eq_true]

theorem stringBody_byte {b : UInt8} (hquote : b ≠ 0x22) (hslash : b ≠ 0x5C) (hblank : ¬ b < 0x20)
    (x : Bytes) :
    stringBody (b :: x) =
      (stringBody (x.drop (Utf8.decode b x).2)).map fun (s, r) =>
        (encodeChar (Utf8.decode b x).1 ++ s, r) := by
  rw [stringBody]
  · rw [if_neg hblank]
  · exact hquote
  · intro h
    exact absurd h hslash

/-- A character that needs no escape starts with a byte that is no quote, backslash or control
character. -/
theorem encodeChar_eq_cons {c : Char} (hquote : c.toNat ≠ 0x22) (hslash : c.toNat ≠ 0x5C)
    (hblank : 0x20 ≤ c.toNat) (x : Bytes) :
    ∃ b r, encodeChar c = b :: r ∧ Utf8.decode b (r ++ x) = (c, r.length) ∧
      b ≠ 0x22 ∧ b ≠ 0x5C ∧ ¬ b < 0x20 := by
  obtain ⟨b, r, hbr, hd⟩ := Utf8.decode_encode c.valid x
  have hchar : Char.ofNat c.val.toNat = c := Char.ofNat_toNat c
  -- the first byte is the character itself, or part of a longer sequence
  have hb : b.toNat = c.toNat ∨ 0x80 ≤ b.toNat := by
    by_cases hascii : c.toNat < 0x80
    · have hone : encodeChar c = [c.toNat.toUInt8] := if_pos hascii
      have hcons := hbr.symm.trans hone
      rw [(List.cons.inj hcons).1, Utf8.toNat_toUInt8 (by omega)]
      exact .inl rfl
    · have hmax : c.toNat < 0x110000 := by
        have hvalid : c.toNat < 0xD800 ∨ 0xDFFF < c.toNat ∧ c.toNat < 0x110000 := c.valid
        omega
      have hmem : b ∈ Utf8.encode c.toNat := by
        rw [show Utf8.encode c.toNat = b :: r from hbr]
        exact List.mem_cons_self
      exact .inr (Utf8.le_of_mem_encode (Nat.not_lt.mp hascii) hmax b hmem)
  refine ⟨b, r, hbr, hchar ▸ hd, ?_, ?_, ?_⟩
  · rintro rfl
    simp only [UInt8.reduceToNat] at hb
    omega
  · rintro rfl
    simp only [UInt8.reduceToNat] at hb
    omega
  · rw [UInt8.lt_iff_toNat_lt]
    simp only [UInt8.reduceToNat]
    omega

/-- A glyph that needs no escape is read as its character. -/
theorem stringBody_plain {c : Char} (hquote : c.toNat ≠ 0x22) (hslash : c.toNat ≠ 0x5C)
    (hblank : 0x20 ≤ c.toNat) (x : Bytes) :
    stringBody (encodeChar c ++ x) =
      (stringBody x).map fun (s, r) => (encodeChar c ++ s, r) := by
  obtain ⟨b, r, hbr, hd, hb⟩ := encodeChar_eq_cons hquote hslash hblank x
  rw [hbr, List.cons_append, stringBody_byte hb.1 hb.2.1 hb.2.2, hd, List.drop_left, hbr]

/-- The letters of escapes are read as the characters that they are written for. -/
theorem escapedByte?_escapeLetter {n : Nat} {letter : UInt8} (h : escapeLetter? n = some letter) :
    letter ≠ 0x75 ∧ ∃ b, escapedByte? letter = some b ∧ Utf8.encode n = [b] := by
  unfold escapeLetter? at h
  split at h
  all_goals
    cases h
  all_goals exact ⟨by decide, _, rfl, rfl⟩

theorem toNat_lt_of_needsNumber {n : Nat} (h : needsNumber n = true) :
    n < 0xD800 := by
  unfold needsNumber at h
  simp only [Bool.or_eq_true, decide_eq_true_eq, beq_iff_eq] at h
  omega

/-- **Each character is read back from what it is written as.** -/
theorem stringBody_escapeGlyph (c : Char) (bytes x : Bytes) :
    stringBody (escapeGlyph ⟨c, bytes⟩ ++ x) =
      (stringBody x).map fun (s, r) => (encodeChar c ++ s, r) := by
  -- escaped by a letter, escaped by its number, or written as it is
  cases hletter : escapeLetter? c.toNat with
  | some letter =>
    obtain ⟨hne, b, hb, hencode⟩ := escapedByte?_escapeLetter hletter
    have hglyph : escapeGlyph ⟨c, bytes⟩ = [0x5C, letter] := by simp only [escapeGlyph, hletter]
    rw [hglyph, encodeChar, hencode]
    exact stringBody_letter hb hne x
  | none =>
    by_cases hnumber : needsNumber c.toNat = true
    · have hlt := toNat_lt_of_needsNumber hnumber
      have hglyph : escapeGlyph ⟨c, bytes⟩ =
          0x5C :: 0x75 :: hexPadded lowerHexDigit 4 c.toNat := by
        simp only [escapeGlyph, hletter, hnumber, if_true]
        rfl
      rw [hglyph, List.cons_append, List.cons_append,
        stringBody_number (by omega) (by omega), Char.ofNat_toNat]
    · have hglyph : escapeGlyph ⟨c, bytes⟩ = encodeChar c := by
        simp only [escapeGlyph, hletter, hnumber]
        rfl
      have hquote : c.toNat ≠ 0x22 := fun h => by rw [h] at hletter; cases hletter
      have hslash : c.toNat ≠ 0x5C := fun h => by rw [h] at hletter; cases hletter
      have hblank : 0x20 ≤ c.toNat :=
        Nat.le_of_not_lt fun hlt => hnumber (by simp [needsNumber, hlt])
      rw [hglyph]
      exact stringBody_plain hquote hslash hblank x

/-- **A text is read back up to its closing quote.** -/
theorem stringBody_escaped {text : Bytes} (h : IsText text) (x : Bytes) :
    stringBody ((Utf8.glyphs text).flatMap escapeGlyph ++ 0x22 :: x) = .ok (text, x) := by
  obtain ⟨cs, rfl⟩ := h
  have hglyphs := Utf8.glyphs_encodeChars cs []
  rw [List.append_nil, Utf8.glyphs_nil, List.append_nil] at hglyphs
  rw [hglyphs]
  clear hglyphs
  induction cs with
  | nil =>
    rw [List.map_nil, List.flatMap_nil, List.nil_append, stringBody]
    rfl
  | cons c cs ih =>
    rw [List.map_cons, List.flatMap_cons, List.append_assoc, stringBody_escapeGlyph, ih]
    rfl

/-! ## Numbers -/

/-- Whether a text starts as what may follow a value. -/
def Delimits (x : Bytes) : Prop := ∀ b ∈ x.head?, b = 0x2C ∨ b = 0x5D ∨ b = 0x7D

theorem delimits_cons {b : UInt8} (h : b = 0x2C ∨ b = 0x5D ∨ b = 0x7D) (x : Bytes) :
    Delimits (b :: x) := by
  intro c hc
  cases hc
  exact h

theorem not_isDigitByte_of_delimits {x : Bytes} (h : Delimits x) :
    ∀ b ∈ x.head?, isDigitByte b = false := by
  intro b hb
  rcases h b hb with rfl | rfl | rfl <;> decide

theorem digits_append {ds x : Bytes} (hne : ds ≠ []) (hds : ∀ b ∈ ds, isDigitByte b = true)
    (hx : Delimits x) : digits (ds ++ x) = .ok (ds, x) := by
  have hstop : x.takeWhile isDigitByte = [] ∧ x.dropWhile isDigitByte = x := by
    cases x with
    | nil => exact ⟨rfl, rfl⟩
    | cons b r =>
      have hb := not_isDigitByte_of_delimits hx b rfl
      simp [hb]
  have htake : (ds ++ x).takeWhile isDigitByte = ds ++ x.takeWhile isDigitByte :=
    List.takeWhile_append_of_pos hds
  have hdrop : (ds ++ x).dropWhile isDigitByte = x.dropWhile isDigitByte :=
    List.dropWhile_append_of_pos hds
  rw [hstop.1, List.append_nil] at htake
  rw [hstop.2] at hdrop
  cases ds with
  | nil => exact absurd rfl hne
  | cons b r =>
    rw [List.cons_append] at htake hdrop ⊢
    rw [digits, if_pos (hds b List.mem_cons_self), htake, hdrop]

theorem wholePart_natDecimal (n : Nat) {x : Bytes} (hx : Delimits x) :
    wholePart (natDecimal n ++ x) = .ok (natDecimal n, x) := by
  by_cases hn : n = 0
  · subst hn
    rw [natDecimal]
    rfl
  · have hdigits := digits_append (natDecimal_ne_nil n) (isDigitByte_of_mem_natDecimal n) hx
    obtain ⟨b, r, hbr, hzero⟩ := natDecimal_eq_cons n
    rw [hbr, List.cons_append] at hdigits ⊢
    rw [wholePart, hdigits]
    exact fun _ h => hn (hzero (List.cons.inj h).1)

theorem fraction_of_delimits {x : Bytes} (hx : Delimits x) : fraction x = .ok ([], x) := by
  rw [fraction]
  rintro r rfl
  exact absurd (hx 0x2E rfl) (by decide)

theorem exponent_of_delimits {x : Bytes} (hx : Delimits x) : exponent x = .ok ([], x) := by
  cases x with
  | nil => rfl
  | cons b r =>
    have hb : ¬ (b = 0x65 ∨ b = 0x45) := by
      rintro (rfl | rfl) <;> exact absurd (hx _ rfl) (by decide)
    simp only [exponent, hb, if_false]

/-- **An integer is read back as a number.** -/
theorem number_intDecimal (i : Int) {x : Bytes} (hx : Delimits x) :
    number (intDecimal i ++ x) = .ok (intDecimal i, x) := by
  -- After the sign there are the digits of a natural number, and nothing that goes on.
  have hrest : ∀ (sign : Bytes) (n : Nat), (do
      let (whole, rest) ← wholePart (natDecimal n ++ x)
      let (part, rest) ← fraction rest
      let (power, rest) ← exponent rest
      return (sign ++ whole ++ part ++ power, rest)) =
        (.ok (sign ++ natDecimal n, x) : Except JsonFault (Bytes × Bytes)) := by
    intro sign n
    rw [wholePart_natDecimal n hx]
    simp only [bind, Except.bind, fraction_of_delimits hx, exponent_of_delimits hx,
      List.append_nil]
    rfl
  cases i with
  | ofNat n =>
    obtain ⟨b, r, hbr, -⟩ := natDecimal_eq_cons n
    have hb : b ≠ 0x2D := by
      rintro rfl
      exact absurd (isDigitByte_of_mem_natDecimal n 0x2D (by simp [hbr])) (by decide)
    have hsign := hrest [] n
    unfold number
    rw [intDecimal]
    rw [hbr, List.cons_append] at hsign ⊢
    split
    next sign rest h =>
      split at h
      next h' => exact absurd (List.cons.inj h').1 hb
      next =>
        cases h
        exact hsign
  | negSucc n => exact hrest [0x2D] (n + 1)

/-! ## Values -/

/-- Values of texts that consist of characters and of integers, at most so deep in one another. -/
inductive Legible : Nat → JsonValue → Prop
  | null {d : Nat} : Legible d .null
  | bool {d : Nat} (b : Bool) : Legible d (.bool b)
  | int {d : Nat} (i : Int) : Legible d (.int i)
  | str {d : Nat} {text : Bytes} (h : IsText text) : Legible d (.str text)
  | arr {d : Nat} {items : List JsonValue} (h : ∀ v ∈ items, Legible d v) :
    Legible (d + 1) (.arr items)
  | obj {d : Nat} {fields : List (Bytes × JsonValue)} (hkeys : ∀ f ∈ fields, IsText f.1)
    (h : ∀ f ∈ fields, Legible d f.2) : Legible (d + 1) (.obj fields)

/-- What may start a value: no blank and no closing bracket. -/
def Begins (text : Bytes) : Prop := ∃ b r, text = b :: r ∧ b ∉ [0x20, 0x09, 0x0A, 0x0D, 0x5D, 0x7D]

theorem Begins.append {text : Bytes} (h : Begins text) (x : Bytes) : Begins (text ++ x) := by
  obtain ⟨b, r, rfl, hb⟩ := h
  exact ⟨b, r ++ x, rfl, hb⟩

theorem Begins.skipBlank_eq {text : Bytes} (h : Begins text) : skipBlank text = text := by
  obtain ⟨b, r, rfl, hb⟩ := h
  simp only [List.mem_cons, List.not_mem_nil, or_false, not_or] at hb
  simp [skipBlank, hb]

theorem Delimits.skipBlank_eq {x : Bytes} (h : Delimits x) : skipBlank x = x := by
  cases x with
  | nil => rfl
  | cons b r => rcases h b rfl with rfl | rfl | rfl <;> rfl

/-- A value that is written can be told from a blank or a closing bracket, and in front of another
text the reader takes the value and leaves that text. -/
structure ReadBack (d : Nat) (v : JsonValue) : Prop where
  begins : Begins v.render
  value_eq : ∀ {fuel depth : Nat} {x : Bytes}, 2 * v.render.length ≤ fuel →
    depth + d ≤ maxDepth → Delimits x → value fuel depth (v.render ++ x) = .ok (v, x)

theorem ReadBack.of_succ {d : Nat} {v : JsonValue} (hbegins : Begins v.render)
    (h : ∀ {fuel depth : Nat} {x : Bytes}, 2 * v.render.length ≤ fuel + 1 →
      depth + d ≤ maxDepth → Delimits x → value (fuel + 1) depth (v.render ++ x) = .ok (v, x)) :
    ReadBack d v := by
  refine ⟨hbegins, fun {fuel} {depth} {x} hfuel hdepth hx => ?_⟩
  obtain ⟨b, r, hbr, -⟩ := hbegins
  have hlength : v.render.length = r.length + 1 := by rw [hbr, List.length_cons]
  obtain ⟨fuel, rfl⟩ : ∃ k, fuel = k + 1 := ⟨fuel - 1, by omega⟩
  exact h hfuel hdepth hx

theorem readBack_word {d : Nat} {v : JsonValue} (h : v = .null ∨ ∃ b, v = .bool b) :
    ReadBack d v := by
  rcases h with rfl | ⟨_ | _, rfl⟩ <;>
    exact .of_succ ⟨_, _, rfl, by decide⟩ fun _ _ _ => rfl

theorem intDecimal_eq_cons (i : Int) :
    ∃ b r, intDecimal i = b :: r ∧ (b == 0x2D || isDigitByte b) = true := by
  cases i with
  | ofNat n =>
    obtain ⟨b, r, hbr, -⟩ := natDecimal_eq_cons n
    exact ⟨b, r, hbr, by simp [isDigitByte_of_mem_natDecimal n b (by simp [hbr])]⟩
  | negSucc n => exact ⟨_, _, rfl, rfl⟩

theorem value_number {fuel depth : Nat} {b : UInt8} (hb : (b == 0x2D || isDigitByte b) = true)
    (r : Bytes) :
    value (fuel + 1) depth (b :: r) = (number (b :: r)).map fun (n, r) => (.num n, r) := by
  rw [value, if_pos hb]
  all_goals
    rintro rfl
    exact absurd hb (by decide)

theorem readBack_int {d : Nat} (i : Int) : ReadBack d (.int i) := by
  obtain ⟨b, r, hbr, hb⟩ := intDecimal_eq_cons i
  refine .of_succ ⟨b, r, hbr, ?_⟩ fun {fuel depth x} _ _ hx => ?_
  · intro hmem
    simp only [List.mem_cons, List.not_mem_nil, or_false] at hmem
    rcases hmem with rfl | rfl | rfl | rfl | rfl | rfl <;> exact absurd hb (by decide)
  · have hnumber := number_intDecimal i hx
    show value (fuel + 1) depth (intDecimal i ++ x) = _
    rw [hbr, List.cons_append] at hnumber ⊢
    rw [value_number hb, hnumber, ← hbr]
    rfl

theorem renderText_append (text x : Bytes) :
    renderText text ++ x = 0x22 :: ((Utf8.glyphs text).flatMap escapeGlyph ++ 0x22 :: x) := by
  simp only [renderText, List.cons_append, List.append_assoc, List.nil_append]

theorem readBack_str {d : Nat} {text : Bytes} (h : IsText text) : ReadBack d (.str text) := by
  refine .of_succ ⟨_, _, rfl, by decide⟩ fun {fuel depth x} _ _ _ => ?_
  rw [render, renderText_append, value, stringBody_escaped h]
  rfl

theorem begins_renderItems {d : Nat} {items : List JsonValue} (h : ∀ v ∈ items, ReadBack d v)
    (hne : items ≠ []) : Begins (renderItems items) := by
  match items, hne with
  | [v], _ => exact (h v List.mem_cons_self).begins
  | v :: w :: rest, _ =>
    rw [renderItems, List.append_assoc]
    · exact (h v List.mem_cons_self).begins.append _
    · exact List.cons_ne_nil w rest

theorem elements_renderItems {d : Nat} {items : List JsonValue} (h : ∀ v ∈ items, ReadBack d v)
    (hne : items ≠ []) {fuel depth : Nat} {x : Bytes}
    (hfuel : 2 * (renderItems items).length + 1 ≤ fuel) (hdepth : depth + d ≤ maxDepth) :
    elements fuel depth (renderItems items ++ 0x5D :: x) = .ok (items, x) := by
  induction items generalizing fuel with
  | nil => exact absurd rfl hne
  | cons v items ih =>
    obtain ⟨fuel, rfl⟩ : ∃ k, fuel = k + 1 := ⟨fuel - 1, by omega⟩
    have hv := h v List.mem_cons_self
    have hrest : ∀ w ∈ items, ReadBack d w := fun w hw => h w (List.mem_cons_of_mem v hw)
    -- behind the last item stands the bracket, behind all others a comma
    cases items with
    | nil =>
      have hlast := delimits_cons (b := 0x5D) (.inr (.inl rfl)) x
      rw [renderItems] at hfuel ⊢
      rw [elements, hv.value_eq (by omega) hdepth hlast]
      simp only [hlast.skipBlank_eq]
    | cons w rest =>
      have hnext := delimits_cons (b := 0x2C) (.inl rfl) (renderItems (w :: rest) ++ 0x5D :: x)
      have hblank := ((begins_renderItems hrest (List.cons_ne_nil w rest)).append
        (0x5D :: x)).skipBlank_eq
      rw [renderItems] at hfuel ⊢
      · simp only [List.length_append, List.length_cons, List.length_nil] at hfuel
        rw [List.append_assoc, List.append_assoc, List.singleton_append, elements,
          hv.value_eq (by omega) hdepth hnext]
        simp only [hnext.skipBlank_eq, hblank]
        rw [ih hrest (List.cons_ne_nil w rest) (by omega)]
        rfl
      · exact List.cons_ne_nil w rest
      · exact List.cons_ne_nil w rest

theorem value_elements {fuel depth : Nat} (hdepth : ¬ maxDepth ≤ depth) {text : Bytes}
    (h : Begins text) :
    value (fuel + 1) depth (0x5B :: text) =
      (elements fuel (depth + 1) text).map fun (vs, r) => (.arr vs, r) := by
  rw [value, if_neg hdepth, h.skipBlank_eq]
  obtain ⟨b, r, rfl, hb⟩ := h
  split
  next heq =>
    cases heq
    exact absurd (by decide) hb
  next => rfl

theorem readBack_arr {d : Nat} {items : List JsonValue} (h : ∀ v ∈ items, ReadBack d v) :
    ReadBack (d + 1) (.arr items) := by
  refine .of_succ ⟨_, _, rfl, by decide⟩ fun {fuel depth x} hfuel hdepth _ => ?_
  have hdeep : ¬ maxDepth ≤ depth := by omega
  simp only [render, List.length_append, List.length_cons, List.length_nil] at hfuel
  simp only [render, List.cons_append, List.nil_append, List.append_assoc]
  by_cases hne : items = []
  · subst hne
    rw [value, if_neg hdeep]
    rfl
  · rw [value_elements hdeep ((begins_renderItems h hne).append _),
      elements_renderItems h hne (by omega) (by omega)]
    rfl

theorem begins_renderText (text : Bytes) : Begins (renderText text) := ⟨_, _, rfl, by decide⟩

theorem begins_renderFields {fields : List (Bytes × JsonValue)} (hne : fields ≠ []) :
    Begins (renderFields fields) := by
  match fields, hne with
  | [(k, v)], _ =>
    rw [renderFields, List.append_assoc]
    exact (begins_renderText k).append _
  | (k, v) :: f :: rest, _ =>
    rw [renderFields, List.append_assoc, List.append_assoc, List.append_assoc]
    · exact (begins_renderText k).append _
    · exact List.cons_ne_nil f rest

theorem members_last {fuel depth : Nat} {k x y : Bytes} {v : JsonValue} (hk : IsText k)
    (hx : Begins x) (hv : value fuel depth x = .ok (v, 0x7D :: y)) :
    members (fuel + 1) depth (renderText k ++ 0x3A :: x) = .ok ([(k, v)], y) := by
  have hcolon : skipBlank (0x3A :: x) = 0x3A :: x := rfl
  have hclose : skipBlank (0x7D :: y) = 0x7D :: y := rfl
  rw [renderText_append, members, stringBody_escaped hk]
  simp only [hcolon, hx.skipBlank_eq, hv, hclose]

theorem members_next {fuel depth : Nat} {k x y : Bytes} {v : JsonValue} (hk : IsText k)
    (hx : Begins x) (hv : value fuel depth x = .ok (v, 0x2C :: y)) (hy : Begins y) :
    members (fuel + 1) depth (renderText k ++ 0x3A :: x) =
      (members fuel depth y).map fun (fs, r) => ((k, v) :: fs, r) := by
  have hcolon : skipBlank (0x3A :: x) = 0x3A :: x := rfl
  have hcomma : skipBlank (0x2C :: y) = 0x2C :: y := rfl
  rw [renderText_append, members, stringBody_escaped hk]
  simp only [hcolon, hx.skipBlank_eq, hv, hcomma, hy.skipBlank_eq]

theorem members_renderFields {d : Nat} {fields : List (Bytes × JsonValue)}
    (hkeys : ∀ f ∈ fields, IsText f.1) (h : ∀ f ∈ fields, ReadBack d f.2) (hne : fields ≠ [])
    {fuel depth : Nat} {x : Bytes} (hfuel : 2 * (renderFields fields).length + 1 ≤ fuel)
    (hdepth : depth + d ≤ maxDepth) :
    members fuel depth (renderFields fields ++ 0x7D :: x) = .ok (fields, x) := by
  induction fields generalizing fuel with
  | nil => exact absurd rfl hne
  | cons f fields ih =>
    obtain ⟨k, v⟩ := f
    obtain ⟨fuel, rfl⟩ : ∃ k, fuel = k + 1 := ⟨fuel - 1, by omega⟩
    have hk : IsText k := hkeys (k, v) List.mem_cons_self
    have hv : ReadBack d v := h (k, v) List.mem_cons_self
    -- behind the last field stands the brace, behind all others a comma
    cases fields with
    | nil =>
      have hlast := delimits_cons (b := 0x7D) (.inr (.inr rfl)) x
      rw [renderFields] at hfuel ⊢
      simp only [List.length_append] at hfuel
      rw [List.append_assoc, List.append_assoc, List.singleton_append]
      exact members_last hk (hv.begins.append _) (hv.value_eq (by omega) hdepth hlast)
    | cons g rest =>
      have hnext := delimits_cons (b := 0x2C) (.inl rfl) (renderFields (g :: rest) ++ 0x7D :: x)
      have hbegins := (begins_renderFields (List.cons_ne_nil g rest)).append (0x7D :: x)
      rw [renderFields] at hfuel ⊢
      · simp only [List.length_append, List.length_cons, List.length_nil] at hfuel
        have hvalue : value fuel depth (v.render ++ 0x2C :: (renderFields (g :: rest)
            ++ 0x7D :: x)) = .ok (v, 0x2C :: (renderFields (g :: rest) ++ 0x7D :: x)) :=
          hv.value_eq (by omega) hdepth hnext
        simp only [List.append_assoc, List.cons_append, List.nil_append]
        rw [members_next hk (hv.begins.append _) hvalue hbegins,
          ih (fun f hf => hkeys f (List.mem_cons_of_mem _ hf))
            (fun f hf => h f (List.mem_cons_of_mem _ hf)) (List.cons_ne_nil g rest) (by omega)]
        rfl
      · exact List.cons_ne_nil g rest
      · exact List.cons_ne_nil g rest

theorem value_members {fuel depth : Nat} (hdepth : ¬ maxDepth ≤ depth) {text : Bytes}
    (h : Begins text) :
    value (fuel + 1) depth (0x7B :: text) =
      (members fuel (depth + 1) text).map fun (fs, r) => (.obj fs, r) := by
  rw [value, if_neg hdepth, h.skipBlank_eq]
  obtain ⟨b, r, rfl, hb⟩ := h
  split
  next heq =>
    cases heq
    exact absurd (by decide) hb
  next => rfl

theorem readBack_obj {d : Nat} {fields : List (Bytes × JsonValue)}
    (hkeys : ∀ f ∈ fields, IsText f.1) (h : ∀ f ∈ fields, ReadBack d f.2) :
    ReadBack (d + 1) (.obj fields) := by
  refine .of_succ ⟨_, _, rfl, by decide⟩ fun {fuel depth x} hfuel hdepth _ => ?_
  have hdeep : ¬ maxDepth ≤ depth := by omega
  simp only [render, List.length_append, List.length_cons, List.length_nil] at hfuel
  simp only [render, List.cons_append, List.nil_append, List.append_assoc]
  by_cases hne : fields = []
  · subst hne
    rw [value, if_neg hdeep]
    rfl
  · rw [value_members hdeep ((begins_renderFields hne).append _),
      members_renderFields hkeys h hne (by omega) (by omega)]
    rfl

theorem Legible.readBack {d : Nat} {v : JsonValue} (h : Legible d v) : ReadBack d v := by
  induction h with
  | null => exact readBack_word (.inl rfl)
  | bool b => exact readBack_word (.inr ⟨b, rfl⟩)
  | int i => exact readBack_int i
  | str h => exact readBack_str h
  | arr _ ih => exact readBack_arr ih
  | obj hkeys _ ih => exact readBack_obj hkeys ih

/-- **What is written is read back.** -/
theorem read_render {v : JsonValue} (h : Legible maxDepth v) : read v.render = .ok v := by
  have hv := h.readBack
  have hvalue : value (2 * v.render.length + 2) 0 (v.render ++ []) = .ok (v, []) :=
    hv.value_eq (by omega) (by omega) (fun b hb => nomatch hb)
  rw [List.append_nil] at hvalue
  rw [read, hv.begins.skipBlank_eq, hvalue]
  rfl

/-! ## What is read -/

theorem exists_of_map_eq_ok {α β ε : Type} {f : α → β} {e : Except ε α} {b : β}
    (h : e.map f = .ok b) : ∃ a, e = .ok a ∧ f a = b := by
  cases e with
  | error _ => cases h
  | ok a => exact ⟨a, rfl, Except.ok.inj h⟩

theorem isText_nil : IsText [] := ⟨[], rfl⟩

theorem IsText.encodeChar_append {text : Bytes} (h : IsText text) (c : Char) :
    IsText (encodeChar c ++ text) := by
  obtain ⟨cs, rfl⟩ := h
  exact ⟨c :: cs, rfl⟩

theorem lt_of_escapedByte? {letter b : UInt8} (h : escapedByte? letter = some b) :
    b.toNat < 0x80 := by
  unfold escapedByte? at h
  split at h
  all_goals
    cases h
  all_goals decide

theorem encodeChar_ofByte {b : UInt8} (h : b.toNat < 0x80) :
    encodeChar (Char.ofNat b.toNat) = [b] := by
  rw [encodeChar, Utf8.toNat_charOfNat (Or.inl (by omega)), Utf8.encode, if_pos h,
    ← Utf8.eq_toUInt8 rfl]

/-- The contents of a string are a sequence of characters, whatever bytes it is read from. -/
theorem isText_of_stringBody {text s r : Bytes} (h : stringBody text = .ok (s, r)) :
    IsText s := by
  -- each step puts one whole character in front of what is read behind it
  fun_induction stringBody text generalizing s r with
  | case1 => cases h
  | case2 rest =>
    cases h
    exact isText_nil
  | case3 => cases h
  | case4 after n c paired hescaped hn ih =>
    simp only [hn, hescaped] at h
    obtain ⟨a, ha, hcons⟩ := exists_of_map_eq_ok h
    cases hcons
    refine IsText.encodeChar_append (ih (r := a.2) ?_) c
    cases paired <;> exact ha
  | case5 after hn hend => simp only [hn, hend, and_self, if_true, reduceCtorEq] at h
  | case6 after hn hend => simp only [hn, hend, if_false, reduceCtorEq] at h
  | case7 letter after _ b hb ih =>
    obtain ⟨a, ha, hcons⟩ := exists_of_map_eq_ok h
    cases hcons
    have := IsText.encodeChar_append (ih ha) (Char.ofNat b.toNat)
    rwa [encodeChar_ofByte (lt_of_escapedByte? hb)] at this
  | case8 => cases h
  | case9 => cases h
  | case10 b rest _ _ _ d =>
    rename_i ih
    obtain ⟨a, ha, hcons⟩ := exists_of_map_eq_ok h
    cases hcons
    exact IsText.encodeChar_append (ih ha) d.1

/-- Where strings and objects come from. -/
theorem value_cases {fuel depth : Nat} {text r : Bytes} {v : JsonValue}
    (h : value fuel depth text = .ok (v, r)) :
    (∃ rest s, stringBody rest = .ok (s, r) ∧ v = .str s) ∨
    (∃ fs, v = .obj fs ∧ (fs = [] ∨ ∃ fuel depth rest, members fuel depth rest = .ok (fs, r))) ∨
    ((∀ s, v ≠ .str s) ∧ ∀ fs, v ≠ .obj fs) := by
  -- numbers, words and arrays: what was read is only put into a constructor
  have hother : ∀ {α : Type} {f : α → JsonValue × Bytes} {e : Except JsonFault α},
      e.map f = .ok (v, r) → (∀ a, (∀ s, (f a).1 ≠ .str s) ∧ ∀ fs, (f a).1 ≠ .obj fs) →
      (∀ s, v ≠ .str s) ∧ ∀ fs, v ≠ .obj fs := by
    intro α f e he hf
    obtain ⟨a, -, ha⟩ := exists_of_map_eq_ok he
    have := hf a
    rwa [ha] at this
  unfold value at h
  split at h
  · cases h
  · split at h
    · cases h
    · exact .inr (.inr (hother h fun _ => ⟨nofun, nofun⟩))
    · exact .inr (.inr (hother h fun _ => ⟨nofun, nofun⟩))
    · exact .inr (.inr (hother h fun _ => ⟨nofun, nofun⟩))
    · obtain ⟨a, ha, hv⟩ := exists_of_map_eq_ok h
      cases hv
      exact .inl ⟨_, _, ha, rfl⟩
    · split at h
      · cases h
      · split at h
        · cases h
          exact .inr (.inr ⟨nofun, nofun⟩)
        · exact .inr (.inr (hother h fun _ => ⟨nofun, nofun⟩))
    · split at h
      · cases h
      · split at h
        · cases h
          exact .inr (.inl ⟨_, rfl, .inl rfl⟩)
        · obtain ⟨a, ha, hv⟩ := exists_of_map_eq_ok h
          cases hv
          exact .inr (.inl ⟨_, rfl, .inr ⟨_, _, _, ha⟩⟩)
    · split at h
      · exact .inr (.inr (hother h fun _ => ⟨nofun, nofun⟩))
      · cases h

/-- What is read as a string is a text. -/
theorem isText_of_value {fuel depth : Nat} {text r : Bytes} {s : Bytes}
    (h : value fuel depth text = .ok (.str s, r)) : IsText s := by
  rcases value_cases h with ⟨rest, s', hs, heq⟩ | ⟨fs, heq, -⟩ | ⟨hstr, -⟩
  · cases heq
    exact isText_of_stringBody hs
  · cases heq
  · exact absurd rfl (hstr s)

/-- Where the fields of an object come from. -/
theorem members_cases {fuel depth : Nat} {text r : Bytes} {fs : List (Bytes × JsonValue)}
    (h : members fuel depth text = .ok (fs, r)) :
    ∃ k v fs', fs = (k, v) :: fs' ∧ (∃ fuel x y, value fuel depth x = .ok (v, y)) ∧
      (fs' = [] ∨ ∃ fuel' x, fuel = fuel' + 1 ∧ members fuel' depth x = .ok (fs', r)) := by
  unfold members at h
  split at h
  · cases h
  · split at h
    · cases h
    · split at h
      · cases h
      next k rest hk =>
      split at h
      · cases h
      · split at h
        · cases h
        next v rest' hv =>
        split at h
        · obtain ⟨a, ha, heq⟩ := exists_of_map_eq_ok h
          cases heq
          exact ⟨k, v, _, rfl, ⟨_, _, _, hv⟩, .inr ⟨_, _, rfl, ha⟩⟩
        · cases h
          exact ⟨k, v, [], rfl, ⟨_, _, _, hv⟩, .inl rfl⟩
        · cases h
        · cases h
      · cases h
    · cases h

theorem isText_of_members {fuel depth : Nat} {text r : Bytes} {fs : List (Bytes × JsonValue)}
    (h : members fuel depth text = .ok (fs, r)) : ∀ k s, (k, .str s) ∈ fs → IsText s := by
  intro k s hmem
  induction fuel generalizing text fs with
  | zero => cases h
  | succ fuel ih =>
    obtain ⟨k', v, fs', rfl, ⟨_, _, _, hv⟩, hrest⟩ := members_cases h
    rcases List.mem_cons.mp hmem with heq | hmem
    · cases heq
      exact isText_of_value hv
    · rcases hrest with rfl | ⟨_, x, heq, hx⟩
      · cases hmem
      · cases heq
        exact ih hx hmem

/-- **The strings among the fields of an object that is read are texts.** -/
theorem isText_of_read {text k s : Bytes} {fs : List (Bytes × JsonValue)}
    (h : read text = .ok (.obj fs)) (hmem : (k, .str s) ∈ fs) : IsText s := by
  unfold read at h
  split at h
  · cases h
  next v rest hv =>
  split at h
  · cases h
    rcases value_cases hv with ⟨_, _, _, heq⟩ | ⟨fs', heq, hfs⟩ | ⟨-, hobj⟩
    · cases heq
    · cases heq
      rcases hfs with rfl | ⟨_, _, _, hfs⟩
      · cases hmem
      · exact isText_of_members hfs k s hmem
    · exact absurd rfl (hobj fs)
  · cases h

end JsonValue

end ScriptTidy
