import ScriptTidy.Text.Utf8

/-!
# Cutting and joining decoded text

A text is read glyph by glyph, and the readers of the scanner and the writer of the layout both
cut texts into pieces. This file says when the pieces can be decoded one by one:

- `glyphs_append`: in front of a text that cannot continue a sequence, anything decodes as it
  does alone;
- `IsDecoding`: the glyphs that are the decoding of their own bytes. Every part of a decoding is
  one again (`IsDecoding.left`, `IsDecoding.right`), although a cut may fall between a stray byte
  and bytes that would have completed it;
- `glyphs_encodeChar`, `glyphs_encode_surrogate`: what was encoded is read back, a surrogate as
  three stray bytes.
-/

namespace ScriptTidy.Utf8

/-- The text cannot continue a sequence that was begun before it. -/
def Fresh (text : Bytes) : Prop := ∀ b ∈ text.head?, isTail b = false

theorem fresh_nil : Fresh [] := by
  intro b hb
  cases hb

theorem fresh_cons {b : UInt8} {r : Bytes} (h : isTail b = false) : Fresh (b :: r) := by
  intro c hc
  cases hc
  exact h

theorem isTail_of_ascii {b : UInt8} (h : b < 0x80) : isTail b = false := by
  have hb : ¬ (0x80 : UInt8) ≤ b := by
    rw [UInt8.le_iff_toNat_le]
    rw [UInt8.lt_iff_toNat_lt] at h
    omega
  simp [isTail, hb]

theorem isTail_iff {b : UInt8} : isTail b = true ↔ 0x80 ≤ b.toNat ∧ b.toNat ≤ 0xBF := by
  simp [isTail, UInt8.le_iff_toNat_le]

theorem isSecondOfThree_iff {b c : UInt8} : isSecondOfThree b c = true ↔
    (0x80 ≤ c.toNat ∧ c.toNat ≤ 0xBF) ∧ (b.toNat = 0xE0 → 0xA0 ≤ c.toNat) ∧
      (b.toNat = 0xED → c.toNat ≤ 0x9F) := by
  have hE0 : b = 0xE0 ↔ b.toNat = 0xE0 := by simp only [← UInt8.toNat_inj, UInt8.reduceToNat]
  have hED : b = 0xED ↔ b.toNat = 0xED := by simp only [← UInt8.toNat_inj, UInt8.reduceToNat]
  unfold isSecondOfThree
  simp only [hE0, hED]
  split
  · simp only [Bool.and_eq_true, decide_eq_true_eq, UInt8.le_iff_toNat_le, UInt8.reduceToNat]
    omega
  · split
    · simp only [Bool.and_eq_true, decide_eq_true_eq, UInt8.le_iff_toNat_le, UInt8.reduceToNat]
      omega
    · rw [isTail_iff]
      omega

theorem isSecondOfFour_iff {b c : UInt8} : isSecondOfFour b c = true ↔
    (0x80 ≤ c.toNat ∧ c.toNat ≤ 0xBF) ∧ (b.toNat = 0xF0 → 0x90 ≤ c.toNat) ∧
      (b.toNat = 0xF4 → c.toNat ≤ 0x8F) := by
  have hF0 : b = 0xF0 ↔ b.toNat = 0xF0 := by simp only [← UInt8.toNat_inj, UInt8.reduceToNat]
  have hF4 : b = 0xF4 ↔ b.toNat = 0xF4 := by simp only [← UInt8.toNat_inj, UInt8.reduceToNat]
  unfold isSecondOfFour
  simp only [hF0, hF4]
  split
  · simp only [Bool.and_eq_true, decide_eq_true_eq, UInt8.le_iff_toNat_le, UInt8.reduceToNat]
    omega
  · split
    · simp only [Bool.and_eq_true, decide_eq_true_eq, UInt8.le_iff_toNat_le, UInt8.reduceToNat]
      omega
    · rw [isTail_iff]
      omega

theorem isTail_of_isSecondOfThree {lead b : UInt8} (h : isSecondOfThree lead b = true) :
    isTail b = true := isTail_iff.mpr (isSecondOfThree_iff.mp h).1

theorem isTail_of_isSecondOfFour {lead b : UInt8} (h : isSecondOfFour lead b = true) :
    isTail b = true := isTail_iff.mpr (isSecondOfFour_iff.mp h).1

/-! ## Joining -/

/-- What follows a piece does not change how its bytes are read, as long as it cannot continue
a sequence. -/
theorem decode_append (b : UInt8) (r : Bytes) {s : Bytes} (hs : Fresh s) :
    decode b (r ++ s) = decode b r := by
  have hthree : ∀ x, isTail x = false → isSecondOfThree b x = false := by
    intro x hx
    cases h : isSecondOfThree b x with
    | false => rfl
    | true => rw [isTail_of_isSecondOfThree h] at hx; cases hx
  have hfour : ∀ x, isTail x = false → isSecondOfFour b x = false := by
    intro x hx
    cases h : isSecondOfFour b x with
    | false => rfl
    | true => rw [isTail_of_isSecondOfFour h] at hx; cases hx
  cases s with
  | nil => rw [List.append_nil]
  | cons x s =>
    have hx : isTail x = false := hs x rfl
    have hx3 := hthree x hx
    have hx4 := hfour x hx
    unfold decode
    -- The bytes that are there decide alone; a missing one is `x`, which fits nowhere.
    match r with
    | [] =>
      cases s with
      | nil => simp [hx]
      | cons y s => cases s <;> simp [hx, hx3, hx4]
    | [c] => cases s <;> simp [hx]
    | [c, d] => simp [hx]
    | c :: d :: e :: r => rfl

theorem glyphs_cons (b : UInt8) (r : Bytes) :
    glyphs (b :: r) =
      ⟨(decode b r).1, b :: r.take (decode b r).2⟩ :: glyphs (r.drop (decode b r).2) := by
  rw [glyphs]

theorem glyphs_nil : glyphs [] = [] := by rw [glyphs]

/-- **Decoding piece by piece.** -/
theorem glyphs_append (t : Bytes) {s : Bytes} (hs : Fresh s) :
    glyphs (t ++ s) = glyphs t ++ glyphs s := by
  fun_induction glyphs t with
  | case1 => rfl
  | case2 b r d ih =>
    have hd : (decode b r).2 ≤ r.length := decode_le b r
    rw [List.cons_append, glyphs_cons, decode_append b r hs, List.take_append_of_le_length hd,
      List.drop_append_of_le_length hd, ih]
    rfl

theorem glyphs_ascii_cons {b : UInt8} (h : b < 0x80) (r : Bytes) :
    glyphs (b :: r) = ⟨Char.ofNat b.toNat, [b]⟩ :: glyphs r := by
  have hd : decode b r = (Char.ofNat b.toNat, 0) := by
    unfold decode
    rw [if_pos h]
  rw [glyphs_cons, hd]
  rfl

/-- Behind an ASCII byte everything decodes as it does alone. -/
theorem glyphs_append_of_getLast {t : Bytes} (h : ∀ b ∈ t.getLast?, b < 0x80) (s : Bytes) :
    glyphs (t ++ s) = glyphs t ++ glyphs s := by
  rcases List.eq_nil_or_concat t with rfl | ⟨u, b, rfl⟩
  · rw [glyphs_nil]
    rfl
  · have hb : b < 0x80 := h b (by simp)
    have hf : ∀ r : Bytes, Fresh (b :: r) := fun r => fresh_cons (isTail_of_ascii hb)
    rw [List.concat_eq_append, List.append_assoc, List.singleton_append, glyphs_append u (hf s),
      glyphs_append u (hf []), glyphs_ascii_cons hb, glyphs_ascii_cons hb, glyphs_nil,
      List.append_assoc, List.singleton_append]

/-! ## Cutting -/

/-- A glyph is read from its own bytes alone. -/
theorem decode_take (b : UInt8) (r : Bytes) {n : Nat} (h : (decode b r).2 ≤ n) :
    decode b (r.take n) = decode b r := by
  unfold decode at h ⊢
  match n, r with
  | _, [] => simp
  | 0, c :: r => rcases r with _ | ⟨d, _ | ⟨e, r⟩⟩ <;> grind
  | 1, c :: r => rcases r with _ | ⟨d, _ | ⟨e, r⟩⟩ <;> grind
  | 2, c :: r => rcases r with _ | ⟨d, _ | ⟨e, r⟩⟩ <;> grind
  | n + 3, c :: r => rcases r with _ | ⟨d, _ | ⟨e, r⟩⟩ <;> rfl

/-- The glyphs are what their bytes decode to. -/
def IsDecoding (gs : List Glyph) : Prop := glyphs (gs.flatMap (·.bytes)) = gs

theorem isDecoding_glyphs (text : Bytes) : IsDecoding (glyphs text) := by
  unfold IsDecoding
  rw [bytes_glyphs]

theorem isDecoding_nil : IsDecoding [] := glyphs_nil

/-- The glyph at the front of a decoding is what is read from its bytes. -/
theorem IsDecoding.uncons {g : Glyph} {gs : List Glyph} (h : IsDecoding (g :: gs)) :
    ∃ b r, g.bytes = b :: r ∧ decode b (r ++ gs.flatMap (·.bytes)) = (g.char, r.length) ∧
      IsDecoding gs := by
  unfold IsDecoding at h
  rw [List.flatMap_cons] at h
  cases hg : g.bytes ++ gs.flatMap (·.bytes) with
  | nil => rw [hg, glyphs_nil] at h; cases h
  | cons b t =>
    rw [hg, glyphs_cons] at h
    obtain ⟨hhead, htail⟩ := List.cons.inj h
    have hbytes : g.bytes = b :: t.take (decode b t).2 := by rw [← hhead]
    have hchar : g.char = (decode b t).1 := by rw [← hhead]
    have ht : t = t.take (decode b t).2 ++ gs.flatMap (·.bytes) := by
      rw [hbytes, List.cons_append] at hg
      exact (List.cons.inj hg).2.symm
    -- The glyph takes its own bytes off, so what is left is the rest of the text.
    have hrest : t.drop (decode b t).2 = gs.flatMap (·.bytes) := by
      have hcut := (List.take_append_drop (decode b t).2 t).trans ht
      exact List.append_cancel_left hcut
    refine ⟨b, t.take (decode b t).2, hbytes, ?_, ?_⟩
    · rw [← ht, hchar, List.length_take, Nat.min_eq_left (decode_le b t)]
    · rw [hrest] at htail
      exact htail

/-- The converse: a glyph that is read in front of a decoding extends it. -/
theorem IsDecoding.cons {g : Glyph} {gs : List Glyph} {b : UInt8} {r : Bytes}
    (hb : g.bytes = b :: r) (hd : decode b (r ++ gs.flatMap (·.bytes)) = (g.char, r.length))
    (h : IsDecoding gs) : IsDecoding (g :: gs) := by
  unfold IsDecoding at h ⊢
  rw [List.flatMap_cons, hb, List.cons_append, glyphs_cons, hd, List.take_left, List.drop_left, h,
    ← hb]

/-- The end of a decoding is a decoding. -/
theorem IsDecoding.right {gs hs : List Glyph} (h : IsDecoding (gs ++ hs)) : IsDecoding hs := by
  induction gs with
  | nil => exact h
  | cons g gs ih =>
    obtain ⟨_, _, _, _, hrest⟩ := h.uncons
    exact ih hrest

/-- The start of a decoding is a decoding: a stray byte stays one when the text is cut behind
it. -/
theorem IsDecoding.left {gs hs : List Glyph} (h : IsDecoding (gs ++ hs)) : IsDecoding gs := by
  induction gs with
  | nil => exact isDecoding_nil
  | cons g gs ih =>
    obtain ⟨b, r, hb, hd, hrest⟩ := IsDecoding.uncons (List.cons_append ▸ h)
    refine IsDecoding.cons hb ?_ (ih hrest)
    rw [List.flatMap_append, ← List.append_assoc] at hd
    -- The glyph fits into what is left of the cut, so it is read there as before.
    have hle : (decode b ((r ++ gs.flatMap (·.bytes)) ++ hs.flatMap (·.bytes))).2
        ≤ (r ++ gs.flatMap (·.bytes)).length := by
      rw [hd, List.length_append]
      exact Nat.le_add_right _ _
    have hcut := decode_take b _ hle
    rw [List.take_left] at hcut
    rw [hcut, hd]

/-- Every glyph of a decoding has bytes. -/
theorem IsDecoding.bytes_ne_nil {gs : List Glyph} (h : IsDecoding gs) :
    ∀ g ∈ gs, g.bytes ≠ [] := by
  induction gs with
  | nil => intro g hg; cases hg
  | cons g gs ih =>
    obtain ⟨b, r, hb, _, hrest⟩ := h.uncons
    intro k hk
    rcases List.mem_cons.mp hk with rfl | hk
    · rw [hb]; simp
    · exact ih hrest k hk

/-! ## Encoding and reading back -/

theorem toNat_toUInt8 {n : Nat} (h : n < 256) : n.toUInt8.toNat = n := by
  rw [Nat.toUInt8, UInt8.toNat_ofNat']
  omega

theorem eq_toUInt8 {b : UInt8} {n : Nat} (h : b.toNat = n) : b = n.toUInt8 := by
  rw [← UInt8.toNat_inj, toNat_toUInt8 (by have := b.toNat_lt; omega), h]

theorem toNat_charOfNat {n : Nat} (h : n.isValidChar) : (Char.ofNat n).toNat = n := by
  rw [Char.ofNat, dif_pos h]
  rfl

theorem encode_ne_nil (n : Nat) : encode n ≠ [] := by
  unfold encode
  repeat' split
  all_goals exact List.cons_ne_nil _ _

/-- A code point beyond ASCII has no ASCII byte. -/
theorem le_of_mem_encode {n : Nat} (hlo : 0x80 ≤ n) (hhi : n < 0x110000) :
    ∀ b ∈ encode n, 0x80 ≤ b.toNat := by
  intro b hb
  have hbyte : ∀ {m : Nat}, 0x80 ≤ m ∧ m < 256 → b = m.toUInt8 → 0x80 ≤ b.toNat := by
    rintro m ⟨hle, hlt⟩ rfl
    rwa [toNat_toUInt8 hlt]
  unfold encode at hb
  rw [if_neg (by omega)] at hb
  split at hb
  · simp only [List.mem_cons, List.not_mem_nil, or_false] at hb
    rcases hb with h | h
    all_goals exact hbyte (by omega) h
  · split at hb
    · simp only [List.mem_cons, List.not_mem_nil, or_false] at hb
      rcases hb with h | h | h
      all_goals exact hbyte (by omega) h
    · simp only [List.mem_cons, List.not_mem_nil, or_false] at hb
      rcases hb with h | h | h | h
      all_goals exact hbyte (by omega) h

theorem decode_two {b c : UInt8} (hb : 0xC2 ≤ b.toNat ∧ b.toNat ≤ 0xDF) (hc : isTail c = true)
    (s : Bytes) :
    decode b (c :: s) = (Char.ofNat (b.toNat % 0x20 * 0x40 + tailBits c), 1) := by
  unfold decode
  rw [if_neg (by simp only [UInt8.lt_iff_toNat_lt, UInt8.reduceToNat]; omega),
    if_pos (by simp only [Bool.and_eq_true, decide_eq_true_eq, UInt8.le_iff_toNat_le,
      UInt8.reduceToNat]; omega)]
  exact if_pos hc

theorem decode_three {b c d : UInt8} (hb : 0xE0 ≤ b.toNat ∧ b.toNat ≤ 0xEF)
    (hc : isSecondOfThree b c = true) (hd : isTail d = true) (s : Bytes) :
    decode b (c :: d :: s) =
      (Char.ofNat (b.toNat % 0x10 * 0x1000 + tailBits c * 0x40 + tailBits d), 2) := by
  unfold decode
  rw [if_neg (by simp only [UInt8.lt_iff_toNat_lt, UInt8.reduceToNat]; omega),
    if_neg (by simp only [Bool.and_eq_true, decide_eq_true_eq, UInt8.le_iff_toNat_le,
      UInt8.reduceToNat]; omega),
    if_pos (by simp only [Bool.and_eq_true, decide_eq_true_eq, UInt8.le_iff_toNat_le,
      UInt8.reduceToNat]; omega)]
  exact if_pos (by rw [hc, hd]; rfl)

theorem decode_four {b c d e : UInt8} (hb : 0xF0 ≤ b.toNat ∧ b.toNat ≤ 0xF4)
    (hc : isSecondOfFour b c = true) (hd : isTail d = true) (he : isTail e = true) (s : Bytes) :
    decode b (c :: d :: e :: s) =
      (Char.ofNat (b.toNat % 8 * 0x40000 + tailBits c * 0x1000 + tailBits d * 0x40
        + tailBits e), 3) := by
  unfold decode
  rw [if_neg (by simp only [UInt8.lt_iff_toNat_lt, UInt8.reduceToNat]; omega),
    if_neg (by simp only [Bool.and_eq_true, decide_eq_true_eq, UInt8.le_iff_toNat_le,
      UInt8.reduceToNat]; omega),
    if_neg (by simp only [Bool.and_eq_true, decide_eq_true_eq, UInt8.le_iff_toNat_le,
      UInt8.reduceToNat]; omega),
    if_pos (by simp only [Bool.and_eq_true, decide_eq_true_eq, UInt8.le_iff_toNat_le,
      UInt8.reduceToNat]; omega)]
  exact if_pos (by rw [hc, hd, he]; rfl)

/-- The ways in which a byte is read: as one of the four forms of a sequence, or as a stray
byte. -/
theorem decode_cases (b : UInt8) (r : Bytes) :
    (b.toNat < 0x80 ∧ decode b r = (Char.ofNat b.toNat, 0)) ∨
    (∃ c s, r = c :: s ∧ (0xC2 ≤ b.toNat ∧ b.toNat ≤ 0xDF) ∧ isTail c = true) ∨
    (∃ c d s, r = c :: d :: s ∧ (0xE0 ≤ b.toNat ∧ b.toNat ≤ 0xEF) ∧
      isSecondOfThree b c = true ∧ isTail d = true) ∨
    (∃ c d e s, r = c :: d :: e :: s ∧ (0xF0 ≤ b.toNat ∧ b.toNat ≤ 0xF4) ∧
      isSecondOfFour b c = true ∧ isTail d = true ∧ isTail e = true) ∨
    (0x80 ≤ b.toNat ∧ decode b r = (replacementChar, 0)) := by
  -- one form for each range of lead bytes; with the wrong bytes behind, the byte is a stray one
  unfold decode
  simp only [UInt8.lt_iff_toNat_lt, UInt8.le_iff_toNat_le, UInt8.reduceToNat]
  split
  · exact Or.inl ⟨by omega, rfl⟩
  · next h0 =>
    simp only [Bool.and_eq_true, decide_eq_true_eq]
    split
    · next h1 =>
      split
      · next c s =>
        split
        · next hc => exact Or.inr (Or.inl ⟨c, s, rfl, h1, hc⟩)
        · exact Or.inr (Or.inr (Or.inr (Or.inr ⟨by omega, rfl⟩)))
      · exact Or.inr (Or.inr (Or.inr (Or.inr ⟨by omega, rfl⟩)))
    · split
      · next h2 =>
        split
        · next c d s =>
          split
          · next hc => exact Or.inr (Or.inr (Or.inl ⟨c, d, s, rfl, h2, hc.1, hc.2⟩))
          · exact Or.inr (Or.inr (Or.inr (Or.inr ⟨by omega, rfl⟩)))
        · exact Or.inr (Or.inr (Or.inr (Or.inr ⟨by omega, rfl⟩)))
      · split
        · next h3 =>
          split
          · next c d e s =>
            split
            · next hc =>
              exact Or.inr (Or.inr (Or.inr (Or.inl ⟨c, d, e, s, rfl, h3, hc.1.1, hc.1.2, hc.2⟩)))
            · exact Or.inr (Or.inr (Or.inr (Or.inr ⟨by omega, rfl⟩)))
          · exact Or.inr (Or.inr (Or.inr (Or.inr ⟨by omega, rfl⟩)))
        · exact Or.inr (Or.inr (Or.inr (Or.inr ⟨by omega, rfl⟩)))

/-- **What was encoded is read back**, in front of any text. -/
theorem decode_encode {n : Nat} (h : n.isValidChar) (s : Bytes) :
    ∃ b r, encode n = b :: r ∧ decode b (r ++ s) = (Char.ofNat n, r.length) := by
  unfold encode
  -- Surrogates are the only code points below the limit that are not read back.
  have hmax : n < 0xD800 ∨ 0xDFFF < n ∧ n < 0x110000 := h
  split
  · refine ⟨_, _, rfl, ?_⟩
    have hb : n.toUInt8.toNat = n := toNat_toUInt8 (by omega)
    unfold decode
    rw [if_pos (by simp only [UInt8.lt_iff_toNat_lt, hb, UInt8.reduceToNat]; omega), hb]
    rfl
  · split
    · have hb := toNat_toUInt8 (n := 0xC0 + n / 0x40) (by omega)
      have hc := toNat_toUInt8 (n := 0x80 + n % 0x40) (by omega)
      refine ⟨_, _, rfl, ?_⟩
      rw [List.singleton_append, decode_two (by omega) (by rw [isTail_iff]; omega), tailBits, hb,
        hc]
      congr 2
      omega
    · split
      · have hb := toNat_toUInt8 (n := 0xE0 + n / 0x1000) (by omega)
        have hc := toNat_toUInt8 (n := 0x80 + n / 0x40 % 0x40) (by omega)
        have hd := toNat_toUInt8 (n := 0x80 + n % 0x40) (by omega)
        refine ⟨_, _, rfl, ?_⟩
        rw [List.cons_append, List.singleton_append,
          decode_three (by omega) (by rw [isSecondOfThree_iff, hb, hc]; omega)
            (by rw [isTail_iff]; omega), tailBits, tailBits, hb, hc, hd]
        congr 2
        omega
      · have hb := toNat_toUInt8 (n := 0xF0 + n / 0x40000) (by omega)
        have hc := toNat_toUInt8 (n := 0x80 + n / 0x1000 % 0x40) (by omega)
        have hd := toNat_toUInt8 (n := 0x80 + n / 0x40 % 0x40) (by omega)
        have he := toNat_toUInt8 (n := 0x80 + n % 0x40) (by omega)
        refine ⟨_, _, rfl, ?_⟩
        rw [List.cons_append, List.cons_append, List.singleton_append,
          decode_four (by omega) (by rw [isSecondOfFour_iff, hb, hc]; omega)
            (by rw [isTail_iff]; omega) (by rw [isTail_iff]; omega), tailBits, tailBits, tailBits,
          hb, hc, hd, he]
        congr 2
        omega

theorem glyphs_encodeChar (c : Char) (s : Bytes) :
    glyphs (encodeChar c ++ s) = ⟨c, encodeChar c⟩ :: glyphs s := by
  obtain ⟨b, r, hbr, hd⟩ := decode_encode c.valid s
  have hc : Char.ofNat c.toNat = c := Char.ofNat_toNat c
  rw [encodeChar, show c.toNat = c.val.toNat from rfl, hbr, List.cons_append, glyphs_cons, hd,
    List.take_left, List.drop_left, show c.val.toNat = c.toNat from rfl, hc]

theorem glyphs_encodeChars (cs : List Char) (s : Bytes) :
    glyphs (encodeChars cs ++ s) = cs.map (fun c => ⟨c, encodeChar c⟩) ++ glyphs s := by
  induction cs with
  | nil => rfl
  | cons c cs ih =>
    rw [encodeChars, List.flatMap_cons, List.append_assoc, glyphs_encodeChar, List.map_cons,
      List.cons_append]
    exact congrArg (List.cons _) ih

/-- **What was read is what would be encoded**, unless it is a stray byte. -/
theorem encode_decode (b : UInt8) (r : Bytes) :
    (decode b r).1 = replacementChar ∨ b :: r.take (decode b r).2 = encodeChar (decode b r).1 := by
  have hchar : ∀ m : Nat, m.isValidChar → encodeChar (Char.ofNat m) = encode m := by
    intro m hm
    rw [encodeChar, toNat_charOfNat hm]
  -- One case per length of the sequence; the bounds on the bytes rule out overlong forms.
  rcases decode_cases b r with ⟨hb, hd⟩ | ⟨c, s, rfl, hb, hc⟩ | ⟨c, d, s, rfl, hb, hc, hd⟩ |
    ⟨c, d, e, s, rfl, hb, hc, hd, he⟩ | ⟨_, hd⟩
  · right
    rw [hd, List.take_zero, hchar _ (Or.inl (by omega)), encode, if_pos hb,
      ← eq_toUInt8 (b := b) rfl]
  · right
    rw [decode_two hb hc, hchar _ (Or.inl (by simp only [tailBits]; omega))]
    rw [isTail_iff] at hc
    simp only [tailBits]
    rw [encode, if_neg (by omega), if_pos (by omega)]
    simp only [List.take_succ_cons, List.take_zero, List.cons.injEq, and_true]
    exact ⟨eq_toUInt8 (by omega), eq_toUInt8 (by omega)⟩
  · right
    have hd' := hd
    rw [decode_three hb hc hd]
    rw [isSecondOfThree_iff] at hc
    rw [isTail_iff] at hd'
    simp only [tailBits]
    rw [hchar _ (by unfold Nat.isValidChar; omega), encode, if_neg (by omega), if_neg (by omega),
      if_pos (by omega)]
    simp only [List.take_succ_cons, List.take_zero, List.cons.injEq, and_true]
    exact ⟨eq_toUInt8 (by omega), eq_toUInt8 (by omega), eq_toUInt8 (by omega)⟩
  · right
    have hd' := hd
    have he' := he
    rw [decode_four hb hc hd he]
    rw [isSecondOfFour_iff] at hc
    rw [isTail_iff] at hd' he'
    simp only [tailBits]
    rw [hchar _ (by unfold Nat.isValidChar; omega), encode, if_neg (by omega), if_neg (by omega),
      if_neg (by omega)]
    simp only [List.take_succ_cons, List.take_zero, List.cons.injEq, and_true]
    exact ⟨eq_toUInt8 (by omega), eq_toUInt8 (by omega), eq_toUInt8 (by omega),
      eq_toUInt8 (by omega)⟩
  · left
    rw [hd]

/-- A glyph of a decoding that is no stray byte has the bytes that its character is encoded
in. -/
theorem IsDecoding.bytes_eq {gs : List Glyph} (h : IsDecoding gs) :
    ∀ g ∈ gs, g.char = replacementChar ∨ g.bytes = encodeChar g.char := by
  induction gs with
  | nil => intro g hg; cases hg
  | cons g gs ih =>
    obtain ⟨b, r, hb, hd, hrest⟩ := h.uncons
    intro k hk
    rcases List.mem_cons.mp hk with rfl | hk
    · have henc := encode_decode b (r ++ gs.flatMap (·.bytes))
      rw [hd, List.take_left, ← hb] at henc
      exact henc
    · exact ih hrest k hk

/-! ## Surrogates -/

theorem decode_tail {b : UInt8} (h : isTail b = true) (r : Bytes) :
    decode b r = (replacementChar, 0) := by
  rw [isTail_iff] at h
  rcases decode_cases b r with ⟨hb, _⟩ | ⟨_, _, _, hb, _⟩ | ⟨_, _, _, _, hb, _⟩ |
    ⟨_, _, _, _, _, hb, _⟩ | ⟨_, hd⟩
  · omega
  · omega
  · omega
  · omega
  · exact hd

/-- A text that starts with a proper character cannot complete one before it. -/
theorem fresh_of_glyphs {text : Bytes} {g : Glyph} {gs : List Glyph} (h : glyphs text = g :: gs)
    (hg : g.char ≠ replacementChar) : Fresh text := by
  intro b hb
  cases text with
  | nil => cases hb
  | cons c r =>
    cases hb
    rw [← Bool.not_eq_true]
    intro htail
    rw [glyphs_cons, decode_tail htail] at h
    cases h
    exact hg rfl

/-- No glyph takes more units of UTF-16 than it has bytes. -/
theorem IsDecoding.utf16Width_le {gs : List Glyph} (h : IsDecoding gs) :
    ∀ g ∈ gs, utf16Width g.char ≤ g.bytes.length := by
  intro g hg
  have hpos := List.length_pos_iff.mpr (h.bytes_ne_nil g hg)
  rcases h.bytes_eq g hg with hr | hb
  · rw [hr]
    exact hpos
  · unfold utf16Width
    split
    next => exact hpos
    next hbig =>
      rw [hb, encodeChar, encode, if_neg (by omega), if_neg (by omega), if_neg hbig]
      show 2 ≤ 4
      decide

/-- The three bytes of a surrogate are read as stray bytes. -/
theorem glyphs_encode_surrogate {n : Nat} (hlo : 0xD800 ≤ n) (hhi : n < 0xE000) (s : Bytes) :
    glyphs (encode n ++ s) =
      ⟨replacementChar, [0xED]⟩ :: ⟨replacementChar, [(0x80 + n / 0x40 % 0x40).toUInt8]⟩ ::
        ⟨replacementChar, [(0x80 + n % 0x40).toUInt8]⟩ :: glyphs s := by
  have hb := toNat_toUInt8 (n := 0x80 + n / 0x40 % 0x40) (by omega)
  have hc := toNat_toUInt8 (n := 0x80 + n % 0x40) (by omega)
  have htb : isTail (0x80 + n / 0x40 % 0x40).toUInt8 = true := by rw [isTail_iff]; omega
  have htc : isTail (0x80 + n % 0x40).toUInt8 = true := by rw [isTail_iff]; omega
  have ha : (0xE0 + n / 0x1000).toUInt8 = 0xED := by
    have : n / 0x1000 = 0xD := by omega
    rw [this]
    rfl
  have hED : decode 0xED ((0x80 + n / 0x40 % 0x40).toUInt8 :: (0x80 + n % 0x40).toUInt8 :: s)
      = (replacementChar, 0) := by
    rcases decode_cases 0xED ((0x80 + n / 0x40 % 0x40).toUInt8 :: (0x80 + n % 0x40).toUInt8 :: s)
      with ⟨h, _⟩ | ⟨_, _, _, h, _⟩ | ⟨_, _, _, heq, _, h, _⟩ | ⟨_, _, _, _, _, h, _⟩ | ⟨_, h⟩
    · exact absurd h (by decide)
    · exact absurd h (by decide)
    · -- the second byte is beyond what may follow `ED`
      rw [← (List.cons.inj heq).1, isSecondOfThree_iff, hb] at h
      have := h.2.2 (by decide)
      omega
    · exact absurd h (by decide)
    · exact h
  rw [encode, if_neg (by omega), if_neg (by omega), if_pos (by omega), ha, List.cons_append,
    List.cons_append, List.singleton_append, glyphs_cons, hED, List.drop_zero, glyphs_cons,
    decode_tail htb, List.drop_zero, glyphs_cons, decode_tail htc, List.drop_zero]
  rfl

end ScriptTidy.Utf8
