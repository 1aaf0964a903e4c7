import ScriptTidy.Proofs.Text.Decoding
import ScriptTidy.Scanner.Basic

/-!
# Where a scan can get to

All readers move their cursor character by character. `Cursor.Reads c gs d` says that reading
the glyphs `gs` leads from `c` to `d`, and `Cursor.Reaches` leaves out which glyphs they were.
Every reader of the scanner returns a cursor that its argument reaches, and reports its errors
at one, so that whatever holds of all cursors that the start of a source reaches holds of every
position the scanner ever shows:

- `Reads.offset_eq`, `Reads.textTo_eq`: what was read is the text between the two offsets;
- `next_within`: a step of the scanner only shows positions that its cursor reaches, and leaves
  a cursor that it reaches.
-/

namespace ScriptTidy

namespace Cursor

/-- Reading the glyphs `gs` leads from `c` to `d`. -/
structure Reads (c : Cursor) (gs : List Glyph) (d : Cursor) : Prop where
  rest_eq : c.rest = gs ++ d.rest
  advance_eq : c.advanceBy gs.length = d

/-- Reading some glyphs leads from `c` to `d`. -/
def Reaches (c d : Cursor) : Prop := ∃ gs, c.Reads gs d

theorem advance_of_cons {c : Cursor} {g : Glyph} {rest : List Glyph} (h : c.rest = g :: rest) :
    c.advance = c.past g rest := by
  unfold advance next?
  rw [h]

theorem advance_rest (c : Cursor) : c.advance.rest = c.rest.tail := by
  cases h : c.rest with
  | nil =>
    unfold advance next?
    rw [h]
    exact h
  | cons g rest => rw [advance_of_cons h, past_rest, List.tail_cons]

theorem advanceBy_rest (n : Nat) (c : Cursor) : (c.advanceBy n).rest = c.rest.drop n := by
  induction n generalizing c with
  | zero => rfl
  | succ n ih =>
    show (advanceBy n c.advance).rest = _
    rw [ih, advance_rest, List.drop_tail]

theorem advanceBy_add (m n : Nat) (c : Cursor) :
    c.advanceBy (m + n) = (c.advanceBy m).advanceBy n := by
  induction m generalizing c with
  | zero => rw [Nat.zero_add]; rfl
  | succ m ih =>
    rw [Nat.succ_add]
    exact ih c.advance

theorem Reads.refl (c : Cursor) : c.Reads [] c := ⟨rfl, rfl⟩

theorem Reads.trans {c d e : Cursor} {gs hs : List Glyph} (h₁ : c.Reads gs d)
    (h₂ : d.Reads hs e) : c.Reads (gs ++ hs) e := by
  refine ⟨?_, ?_⟩
  · rw [h₁.rest_eq, h₂.rest_eq, List.append_assoc]
  · rw [List.length_append, advanceBy_add, h₁.advance_eq, h₂.advance_eq]

theorem Reads.eq_of_nil {c d : Cursor} (h : c.Reads [] d) : d = c := h.advance_eq.symm

/-- Reading glyphs is reading the first one and then the others. -/
theorem Reads.uncons {c d : Cursor} {g : Glyph} {gs : List Glyph} (h : c.Reads (g :: gs) d) :
    c.rest = g :: (gs ++ d.rest) ∧ (c.past g (gs ++ d.rest)).Reads gs d := by
  have hrest : c.rest = g :: (gs ++ d.rest) := h.rest_eq
  refine ⟨hrest, past_rest _ _ _, ?_⟩
  rw [← advance_of_cons hrest]
  exact h.advance_eq

/-- A cursor can read any glyphs that are next. -/
theorem reads_of_append {c : Cursor} {gs rest : List Glyph} (h : c.rest = gs ++ rest) :
    c.Reads gs (c.advanceBy gs.length) := by
  refine ⟨?_, rfl⟩
  rw [advanceBy_rest, h, List.drop_left]

theorem reads_advance {c : Cursor} {g : Glyph} {rest : List Glyph} (h : c.rest = g :: rest) :
    c.Reads [g] c.advance := by
  have hg : c.rest = [g] ++ rest := h
  exact reads_of_append hg

/-- Reading a character is reading its glyph. -/
theorem reads_of_next? {c d : Cursor} {ch : Char} (h : c.next? = some (ch, d)) :
    ∃ g, c.Reads [g] d ∧ g.char = ch := by
  unfold next? at h
  split at h
  next => cases h
  next g rest hr =>
    cases h
    refine ⟨g, ?_, rfl⟩
    rw [← advance_of_cons hr]
    exact reads_advance hr

theorem next?_eq_none {c : Cursor} : c.next? = none ↔ c.rest = [] := by
  unfold next?
  split
  next h => simp [h]
  next g rest h => simp [h]

theorem next?_of_cons {c : Cursor} {g : Glyph} {rest : List Glyph} (h : c.rest = g :: rest) :
    c.next? = some (g.char, c.advance) := by
  rw [advance_of_cons h]
  unfold next?
  rw [h]

theorem Reaches.refl (c : Cursor) : c.Reaches c := ⟨[], Reads.refl c⟩

theorem Reaches.trans {c d e : Cursor} (h₁ : c.Reaches d) (h₂ : d.Reaches e) : c.Reaches e := by
  obtain ⟨gs, hgs⟩ := h₁
  obtain ⟨hs, hhs⟩ := h₂
  exact ⟨gs ++ hs, hgs.trans hhs⟩

theorem reaches_next? {c d : Cursor} {ch : Char} (h : c.next? = some (ch, d)) : c.Reaches d := by
  obtain ⟨g, hg, _⟩ := reads_of_next? h
  exact ⟨[g], hg⟩

theorem reaches_advance (c : Cursor) : c.Reaches c.advance := by
  cases h : c.rest with
  | nil =>
    have : c.advance = c := by
      unfold advance next?
      rw [h]
    rw [this]
    exact Reaches.refl c
  | cons g rest => exact ⟨[g], reads_advance h⟩

theorem reaches_advanceBy (n : Nat) (c : Cursor) : c.Reaches (c.advanceBy n) := by
  induction n generalizing c with
  | zero => exact Reaches.refl c
  | succ n ih => exact (reaches_advance c).trans (ih c.advance)

theorem reaches_skipWhile (p : Char → Bool) (c : Cursor) : c.Reaches (c.skipWhile p) := by
  fun_induction skipWhile p c with
  | case1 c ch d h hp ih => exact (reaches_next? h).trans ih
  | case2 c => exact Reaches.refl c
  | case3 c => exact Reaches.refl c

/-- What a cursor can still read shrinks to a part of it. -/
theorem Reaches.suffix {c d : Cursor} (h : c.Reaches d) : d.rest <:+ c.rest := by
  obtain ⟨gs, hgs⟩ := h
  exact ⟨gs, hgs.rest_eq.symm⟩

/-! ## Offsets and the text between two cursors -/

theorem past_offset (c : Cursor) (g : Glyph) (rest : List Glyph) :
    (c.past g rest).offset = c.offset + g.bytes.length := by
  unfold past
  split
  · rfl
  · split <;> rfl

theorem Reads.offset_eq {c d : Cursor} {gs : List Glyph} (h : c.Reads gs d) :
    d.offset = c.offset + (gs.flatMap (·.bytes)).length := by
  induction gs generalizing c with
  | nil => exact congrArg Cursor.offset h.eq_of_nil
  | cons g gs ih =>
    obtain ⟨_, hg⟩ := h.uncons
    rw [ih hg, past_offset, List.flatMap_cons, List.length_append]
    omega

/-- Offsets in a source count the bytes from its start. -/
theorem Reads.offset_eq_length {source : Bytes} {d : Cursor} {gs : List Glyph}
    (h : (ofSource source).Reads gs d) : d.offset = (gs.flatMap (·.bytes)).length :=
  h.offset_eq.trans (Nat.zero_add _)

/-- A cursor can stand between any two glyphs of a source. -/
theorem exists_reaches_of_glyphs {source : Bytes} {gs rest : List Glyph}
    (h : Utf8.glyphs source = gs ++ rest) :
    ∃ d, (ofSource source).Reaches d ∧ d.offset = (gs.flatMap (·.bytes)).length
      ∧ d.rest = rest := by
  have hreads := reads_of_append (c := ofSource source) h
  exact ⟨_, ⟨gs, hreads⟩, hreads.offset_eq_length,
    (List.append_cancel_left (h.symm.trans hreads.rest_eq)).symm⟩

theorem bytesUpTo_append {gs : List Glyph} (hne : ∀ g ∈ gs, g.bytes ≠ []) (rest : List Glyph) :
    bytesUpTo (gs.flatMap (·.bytes)).length (gs ++ rest) = gs.flatMap (·.bytes) := by
  induction gs with
  | nil => cases rest <;> simp [bytesUpTo]
  | cons g gs ih =>
    have hg : g.bytes.length ≠ 0 := by
      intro h
      exact hne g (List.mem_cons_self ..) (List.eq_nil_of_length_eq_zero h)
    rw [List.cons_append, bytesUpTo, List.flatMap_cons, List.length_append,
      if_neg (by omega), Nat.add_sub_cancel_left,
      ih fun k hk => hne k (List.mem_cons_of_mem _ hk)]

/-- **What was read is the text between the two cursors.** -/
theorem Reads.textTo_eq {c d : Cursor} {gs : List Glyph} (h : c.Reads gs d)
    (hc : Utf8.IsDecoding c.rest) : c.textTo d = gs.flatMap (·.bytes) := by
  have hne : ∀ g ∈ gs, g.bytes ≠ [] := by
    intro g hg
    refine hc.bytes_ne_nil g ?_
    rw [h.rest_eq]
    exact List.mem_append_left _ hg
  unfold textTo
  rw [h.offset_eq, Nat.add_sub_cancel_left, h.rest_eq, bytesUpTo_append hne]

theorem Reads.isDecoding_left {c d : Cursor} {gs : List Glyph} (h : c.Reads gs d)
    (hc : Utf8.IsDecoding c.rest) : Utf8.IsDecoding gs :=
  Utf8.IsDecoding.left (h.rest_eq ▸ hc)

theorem Reaches.isDecoding {c d : Cursor} (h : c.Reaches d) (hc : Utf8.IsDecoding c.rest) :
    Utf8.IsDecoding d.rest := by
  obtain ⟨gs, hgs⟩ := h
  exact Utf8.IsDecoding.right (hgs.rest_eq ▸ hc)

/-- **Each byte that is read adds at most one to the line and the column together.** -/
theorem Reads.line_add_column_le {c d : Cursor} {gs : List Glyph} (h : c.Reads gs d)
    (hdec : Utf8.IsDecoding gs) :
    d.line + d.column + c.offset ≤ c.line + c.column + d.offset := by
  induction gs generalizing c with
  | nil => exact Nat.le_of_eq (by rw [h.eq_of_nil])
  | cons g gs ih =>
    obtain ⟨_, hg⟩ := h.uncons
    have hwidth := hdec.utf16Width_le g List.mem_cons_self
    have hpos := List.length_pos_iff.mpr (hdec.bytes_ne_nil g List.mem_cons_self)
    -- Each case of `Cursor.past` adds no more than the glyph has bytes.
    have hstep : (c.past g (gs ++ d.rest)).line + (c.past g (gs ++ d.rest)).column + c.offset
        ≤ c.line + c.column + (c.past g (gs ++ d.rest)).offset := by
      unfold past
      dsimp only
      split
      · dsimp only
        omega
      · split
        · dsimp only
          omega
        · dsimp only
          omega
    have hgs : Utf8.IsDecoding gs :=
      Utf8.IsDecoding.right (show Utf8.IsDecoding ([g] ++ gs) from hdec)
    have hrun := ih hg hgs
    omega

/-- A position that is shown at or behind a cursor. -/
def Shows (c : Cursor) (p : Position) : Prop := ∃ d, c.Reaches d ∧ p = d.position

theorem shows_self (c : Cursor) : c.Shows c.position := ⟨c, Reaches.refl c, rfl⟩

theorem Reaches.shows {c d : Cursor} (h : c.Reaches d) : c.Shows d.position := ⟨d, h, rfl⟩

theorem Reaches.shows_of_shows {c d : Cursor} {p : Position} (h : c.Reaches d) (hp : d.Shows p) :
    c.Shows p := by
  obtain ⟨e, he, rfl⟩ := hp
  exact ⟨e, h.trans he, rfl⟩

/-- Lines and columns are counted in ordinary numbers and stay below the offset. -/
theorem Shows.bounded {source : Bytes} {p : Position} (h : (ofSource source).Shows p) :
    0 ≤ p.line ∧ 0 ≤ p.column ∧ p.line + p.column ≤ 1 + p.offset := by
  obtain ⟨d, ⟨gs, hgs⟩, rfl⟩ := h
  have hle := hgs.line_add_column_le (hgs.isDecoding_left (Utf8.isDecoding_glyphs source))
  simp only [ofSource] at hle
  simp only [position]
  omega

end Cursor

namespace Scanner

open Cursor

/-! ## Readers of escapes -/

theorem readHex_reaches {count value n : Nat} {c d : Cursor}
    (h : readHex count value c = .ok (n, d)) : c.Reaches d := by
  fun_induction readHex count value c with
  | case1 => cases h; exact Reaches.refl _
  | case2 count value c ch e hn x hx ih => exact (reaches_next? hn).trans (ih h)
  | case3 => cases h
  | case4 => cases h

theorem readBraced_reaches {value : Option Nat} {n : Nat} {c d : Cursor}
    (h : readBraced value c = .ok (n, d)) : c.Reaches d := by
  fun_induction readBraced value c with
  | case1 => cases h
  | case2 => cases h; exact reaches_next? (by assumption)
  | case3 => cases h
  | case4 => cases h
  | case5 => cases h
  | case6 value c ch e hn hb x hx v hv ih => exact (reaches_next? hn).trans (ih h)

theorem readCodePoint_reaches {n : Nat} {c d : Cursor} (h : readCodePoint c = .ok (n, d)) :
    c.Reaches d := by
  unfold readCodePoint at h
  split at h
  · exact (reaches_advance c).trans (readBraced_reaches h)
  · exact readHex_reaches h

theorem readLowHalf?_reaches {hi n : Nat} {c d : Cursor} (h : readLowHalf? hi c = some (n, d)) :
    c.Reaches d := by
  unfold readLowHalf? at h
  split at h
  · split at h
    · next lo e he =>
      split at h
      · simp only [Option.some.injEq, Prod.mk.injEq] at h
        obtain ⟨_, rfl⟩ := h
        exact (reaches_advanceBy 2 c).trans (readCodePoint_reaches he)
      · cases h
    · cases h
  · cases h

theorem readUnicodeEscape_reaches {v : Bytes} {c d : Cursor}
    (h : readUnicodeEscape c = .ok (v, d)) : c.Reaches d := by
  unfold readUnicodeEscape at h
  split at h
  · cases h
  · next n e he =>
    split at h
    · next hl =>
      cases h
      exact (readCodePoint_reaches he).trans (readLowHalf?_reaches hl)
    · cases h
      exact readCodePoint_reaches he

theorem readOctal_reaches (count value : Nat) (c : Cursor) :
    c.Reaches (readOctal count value c).2 := by
  fun_induction readOctal count value c with
  | case1 => exact Reaches.refl _
  | case2 count value c ch d hn hd ih => exact (reaches_next? hn).trans ih
  | case3 => exact Reaches.refl _
  | case4 => exact Reaches.refl _

theorem readEscape_reaches {v : Bytes} {c d : Cursor} (h : readEscape c = .ok (v, d)) :
    c.Reaches d := by
  unfold readEscape at h
  split at h
  · cases h
  · next ch e hn =>
    refine (reaches_next? hn).trans ?_
    split at h
    · cases h; exact Reaches.refl _
    · split at h
      · split at h
        · next hx => cases h; exact readHex_reaches hx
        · cases h
      · split at h
        · exact readUnicodeEscape_reaches h
        · split at h
          · cases h
            split
            · exact reaches_advance e
            · exact Reaches.refl _
          · split at h
            · cases h; exact Reaches.refl _
            · split at h
              · cases h; exact readOctal_reaches 2 _ e
              · cases h; exact Reaches.refl _

/-! ## Readers of names and literals

For each reader one lemma about where it gets to and one about where it reports its errors. -/

theorem withText_eq_ok {text v : Bytes} {r : Except LexError (Bytes × Cursor)} {d : Cursor}
    (h : withText text r = .ok (v, d)) : ∃ more, r = .ok (more, d) ∧ v = text ++ more := by
  unfold withText at h
  split at h
  · next more c => cases h; exact ⟨more, rfl, rfl⟩
  · cases h

theorem withText_eq_error {text : Bytes} {r : Except LexError (Bytes × Cursor)} {e : LexError}
    (h : withText text r = .error e) : r = .error e := by
  unfold withText at h
  split at h
  · cases h
  · cases h; rfl

theorem readName_reaches {first : Bool} {c d : Cursor} {v : Bytes}
    (h : readName first c = .ok (v, d)) : c.Reaches d := by
  fun_induction readName first c generalizing v with
  | case1 => cases h; exact Reaches.refl _
  | case2 => cases h
  | case3 first c e hu n f hcp hcont hn ih =>
    have hf : c.Reaches f :=
      (reaches_next? hn).trans ((reaches_advance e).trans (readCodePoint_reaches hcp))
    obtain ⟨more, hmore, _⟩ := withText_eq_ok h
    exact hf.trans (ih hmore)
  | case4 => cases h
  | case5 => cases h
  | case6 first c ch e hn hb hcont ih =>
    obtain ⟨more, hmore, _⟩ := withText_eq_ok h
    exact (reaches_next? hn).trans (ih hmore)
  | case7 => cases h; exact Reaches.refl _

theorem readName_shows {first : Bool} {c : Cursor} {e : LexError}
    (h : readName first c = .error e) : c.Shows e.pos := by
  fun_induction readName first c with
  | case1 => cases h
  | case2 => cases h; exact shows_self _
  | case3 first c d hu n f hcp hcont hn ih =>
    have hf : c.Reaches f :=
      (reaches_next? hn).trans ((reaches_advance d).trans (readCodePoint_reaches hcp))
    exact hf.shows_of_shows (ih (withText_eq_error h))
  | case4 => cases h; exact shows_self _
  | case5 => cases h; exact shows_self _
  | case6 first c ch d hn hb hcont ih =>
    exact (reaches_next? hn).shows_of_shows (ih (withText_eq_error h))
  | case7 => cases h

theorem skipOneOf_reaches (cs : List Char) (c : Cursor) : c.Reaches (skipOneOf cs c) := by
  unfold skipOneOf
  split
  · exact reaches_advance c
  · exact Reaches.refl c

theorem skipDigits_reaches (base : Nat) (c : Cursor) : c.Reaches (skipDigits base c) :=
  reaches_skipWhile _ c

theorem readRadixNumber_reaches {base : Nat} {c d : Cursor}
    (h : readRadixNumber base c = .ok d) : c.Reaches d := by
  unfold readRadixNumber at h
  dsimp only at h
  split at h
  · cases h
    exact (reaches_advanceBy 2 c).trans ((skipDigits_reaches base _).trans (skipOneOf_reaches _ _))
  · cases h

theorem readExponent_reaches {start : Position} {c d : Cursor}
    (h : readExponent start c = .ok d) : c.Reaches d := by
  unfold readExponent at h
  split at h
  · dsimp only at h
    split at h
    · cases h
      exact (reaches_advance c).trans ((skipOneOf_reaches _ _).trans (skipDigits_reaches 10 _))
    · cases h
  · cases h; exact Reaches.refl c

/-- The cursor in front of an exponent. -/
theorem readDecimalNumber_mantissa_reaches (c : Cursor) :
    c.Reaches (if (skipDigits 10 c).peek? = some '.' then skipDigits 10 (skipDigits 10 c).advance
      else skipDigits 10 c) := by
  split
  · exact (skipDigits_reaches 10 c).trans ((reaches_advance _).trans (skipDigits_reaches 10 _))
  · exact skipDigits_reaches 10 c

theorem readDecimalNumber_reaches {c d : Cursor} (h : readDecimalNumber c = .ok d) :
    c.Reaches d := by
  unfold readDecimalNumber at h
  dsimp only at h
  split at h
  · cases h
    exact (skipDigits_reaches 10 c).trans (reaches_advance _)
  · exact (readDecimalNumber_mantissa_reaches c).trans (readExponent_reaches h)

theorem readNumber_reaches {c d : Cursor} (h : readNumber c = .ok d) : c.Reaches d := by
  unfold readNumber at h
  dsimp only at h
  split at h
  · cases h
  · next e he =>
    split at h
    · cases h
    · cases h
      split at he
      · exact readRadixNumber_reaches he
      · exact readDecimalNumber_reaches he

theorem readExponent_pos {start : Position} {c : Cursor} {e : LexError}
    (h : readExponent start c = .error e) : e.pos = start := by
  unfold readExponent at h
  split at h
  · dsimp only at h
    split at h
    · cases h
    · cases h; rfl
  · cases h

theorem readNumber_shows {c : Cursor} {e : LexError} (h : readNumber c = .error e) :
    c.Shows e.pos := by
  unfold readNumber at h
  dsimp only at h
  split at h
  · next f hf =>
    cases h
    split at hf
    · unfold readRadixNumber at hf
      dsimp only at hf
      split at hf
      · cases hf
      · cases hf; exact shows_self c
    · unfold readDecimalNumber at hf
      dsimp only at hf
      split at hf
      · cases hf
      · rw [readExponent_pos hf]
        exact shows_self c
  · next d hd =>
    have hreach : c.Reaches d := by
      split at hd
      · exact readRadixNumber_reaches hd
      · exact readDecimalNumber_reaches hd
    split at h
    · cases h; exact hreach.shows
    · cases h

theorem readString_reaches {quote : Char} {start : Position} {c d : Cursor} {v : Bytes}
    (h : readString quote start c = .ok (v, d)) : c.Reaches d := by
  fun_induction readString quote start c generalizing v with
  | case1 => cases h
  | case2 => cases h; exact reaches_next? (by assumption)
  | case3 => cases h
  | case4 => cases h
  | case5 c e text f hesc hn hq hl ih =>
    obtain ⟨more, hmore, _⟩ := withText_eq_ok h
    exact (reaches_next? hn).trans ((readEscape_reaches hesc).trans (ih hmore))
  | case6 c ch e hn hq hl hb ih =>
    obtain ⟨more, hmore, _⟩ := withText_eq_ok h
    exact (reaches_next? hn).trans (ih hmore)

theorem readString_shows {quote : Char} {start : Position} {c : Cursor} {e : LexError}
    (h : readString quote start c = .error e) : e.pos = start ∨ c.Shows e.pos := by
  fun_induction readString quote start c with
  | case1 => cases h; exact Or.inl rfl
  | case2 => cases h
  | case3 => cases h; exact Or.inl rfl
  | case4 => cases h; exact Or.inr (shows_self _)
  | case5 c d text f hesc hn hq hl ih =>
    rcases ih (withText_eq_error h) with hs | hs
    · exact Or.inl hs
    · exact Or.inr (((reaches_next? hn).trans (readEscape_reaches hesc)).shows_of_shows hs)
  | case6 c ch d hn hq hl hb ih =>
    rcases ih (withText_eq_error h) with hs | hs
    · exact Or.inl hs
    · exact Or.inr ((reaches_next? hn).shows_of_shows hs)

theorem readRegexpBody_reaches {start : Position} {escaped inClass : Bool} {c d : Cursor}
    (h : readRegexpBody start escaped inClass c = .ok d) : c.Reaches d := by
  fun_induction readRegexpBody start escaped inClass c with
  | case1 => cases h
  | case2 => cases h
  | case3 inClass c ch e hn hl ih => exact (reaches_next? hn).trans (ih h)
  | case4 => cases h; exact reaches_next? (by assumption)
  | case5 escaped inClass c ch e hn hl he hs ih => exact (reaches_next? hn).trans (ih h)

theorem readRegexpBody_pos {start : Position} {escaped inClass : Bool} {c : Cursor} {e : LexError}
    (h : readRegexpBody start escaped inClass c = .error e) : e.pos = start := by
  fun_induction readRegexpBody start escaped inClass c with
  | case1 => cases h; rfl
  | case2 => cases h; rfl
  | case3 inClass c ch d hn hl ih => exact ih h
  | case4 => cases h
  | case5 escaped inClass c ch d hn hl he hs ih => exact ih h

theorem readRegexp_reaches {c d : Cursor} (h : readRegexp c = .ok d) : c.Reaches d := by
  unfold readRegexp at h
  split at h
  · cases h
  · next e he =>
    cases h
    exact (reaches_advance c).trans ((readRegexpBody_reaches he).trans (reaches_skipWhile _ e))

theorem readRegexp_shows {c : Cursor} {e : LexError} (h : readRegexp c = .error e) :
    c.Shows e.pos := by
  unfold readRegexp at h
  split at h
  · next he =>
    cases h
    rw [readRegexpBody_pos he]
    exact shows_self c
  · cases h

theorem readChunk_reaches {start : Position} {c d : Cursor} (h : readChunk start c = .ok d) :
    c.Reaches d := by
  fun_induction readChunk start c with
  | case1 => cases h
  | case2 => cases h; exact Reaches.refl _
  | case3 c e hends hn ih => exact ((reaches_next? hn).trans (reaches_advance e)).trans (ih h)
  | case4 c ch e hn hends hb ih => exact (reaches_next? hn).trans (ih h)

theorem readChunk_pos {start : Position} {c : Cursor} {e : LexError}
    (h : readChunk start c = .error e) : e.pos = start := by
  fun_induction readChunk start c with
  | case1 => cases h; rfl
  | case2 => cases h
  | case3 c d hends hn ih => exact ih h
  | case4 c ch d hn hends hb ih => exact ih h

/-! ## Trivia -/

/-- The token starts and ends at positions that are shown at or behind the cursor. -/
def Covers (c : Cursor) (t : Token) : Prop := c.Shows t.start ∧ c.Shows t.stop

theorem Covers.mono {c d : Cursor} {t : Token} (h : c.Reaches d) (ht : Covers d t) :
    Covers c t := ⟨h.shows_of_shows ht.1, h.shows_of_shows ht.2⟩

theorem findCommentEnd_reaches {newline b : Bool} {c d : Cursor}
    (h : findCommentEnd newline c = some (d, b)) : c.Reaches d := by
  fun_induction findCommentEnd newline c with
  | case1 => cases h
  | case2 => cases h; exact Reaches.refl _
  | case3 newline c ch e hn hc ih => exact (reaches_next? hn).trans (ih h)

theorem readLineComment_reaches (kind : Kind) (c : Cursor) :
    c.Reaches (readLineComment kind c).2 := reaches_skipWhile _ c

theorem readLineComment_covers (kind : Kind) (c : Cursor) : Covers c (readLineComment kind c).1 :=
  ⟨shows_self c, (readLineComment_reaches kind c).shows⟩

/-- All that trivia shows lies at or behind the cursor it starts at. -/
structure Trivia.Within (c : Cursor) (t : Trivia) : Prop where
  comments : ∀ k ∈ t.comments, Covers c k
  reaches : ∀ d, t.outcome = .ok d → c.Reaches d
  shows_error : ∀ e, t.outcome = .error e → c.Shows e.pos

theorem Trivia.Within.mono {c d : Cursor} {t : Trivia} (h : c.Reaches d) (ht : t.Within d) :
    t.Within c where
  comments k hk := (ht.comments k hk).mono h
  reaches e he := h.trans (ht.reaches e he)
  shows_error e he := h.shows_of_shows (ht.shows_error e he)

theorem Trivia.Within.withComment {c : Cursor} {k : Token} {t : Trivia} (hk : Covers c k)
    (ht : t.Within c) : (t.withComment k).Within c where
  comments x hx := by
    rcases List.mem_cons.mp hx with rfl | hx
    · exact hk
    · exact ht.comments x hx
  reaches := ht.reaches
  shows_error := ht.shows_error

/-- No trivia at all: the cursor stays. -/
theorem Trivia.within_here (newline : Bool) (c : Cursor) :
    Trivia.Within c ⟨[], newline, .ok c⟩ where
  comments k hk := by cases hk
  reaches d hd := by cases hd; exact Reaches.refl c
  shows_error e he := by cases he

theorem readTrivia_within (newline : Bool) (c : Cursor) : (readTrivia newline c).Within c := by
  fun_induction readTrivia newline c with
  | case1 newline c => exact Trivia.within_here newline c
  | case2 newline c ch d hn hl ih => exact ih.mono (reaches_next? hn)
  | case3 newline c ch d hn hl hs ih => exact ih.mono (reaches_next? hn)
  | case4 newline c d hp he hn hl hs =>
    refine ⟨fun k hk => (by cases hk), fun d hd => (by cases hd), fun e he => ?_⟩
    cases he
    exact shows_self c
  | case5 newline c d hp close nl he stop hn hl hs ih =>
    have hclose : c.Reaches close := (reaches_advanceBy 2 c).trans (findCommentEnd_reaches he)
    have hstop : c.Reaches stop := hclose.trans (reaches_advanceBy 2 close)
    exact (ih.mono hstop).withComment ⟨shows_self c, hstop.shows⟩
  | case6 newline c d hp hq comment hn hl hs ih =>
    exact (ih.mono (readLineComment_reaches _ c)).withComment (readLineComment_covers _ c)
  | case7 newline c => exact Trivia.within_here newline c
  | case8 newline c => exact Trivia.within_here newline c

theorem readLeadingTrivia_within (c : Cursor) : (readLeadingTrivia c).Within c := by
  unfold readLeadingTrivia
  split
  · exact ((readTrivia_within false _).mono (readLineComment_reaches _ c)).withComment
      (readLineComment_covers _ c)
  · exact readTrivia_within false c

/-! ## Tokens and steps -/

/-- What a reader of tokens shows lies at or behind the cursor it starts at. -/
structure ReadWithin (c : Cursor) (r : Except LexError (Token × Cursor)) : Prop where
  token : ∀ t d, r = .ok (t, d) → Covers c t ∧ c.Reaches d
  shows_error : ∀ e, r = .error e → c.Shows e.pos

theorem readWithin_ok {c d : Cursor} {t : Token} (ht : Covers c t) (hd : c.Reaches d) :
    ReadWithin c (.ok (t, d)) where
  token t d h := by cases h; exact ⟨ht, hd⟩
  shows_error e h := by cases h

theorem readWithin_error {c : Cursor} {e : LexError} (he : c.Shows e.pos) :
    ReadWithin c (.error e) where
  token t d h := by cases h
  shows_error e h := by cases h; exact he

theorem rawTokenTo_within {kind : Kind} {c : Cursor} {stop : Except LexError Cursor}
    (hok : ∀ d, stop = .ok d → c.Reaches d) (herr : ∀ e, stop = .error e → c.Shows e.pos) :
    ReadWithin c (rawTokenTo kind c stop) := by
  unfold rawTokenTo
  split
  · next d => exact readWithin_ok ⟨shows_self c, (hok d rfl).shows⟩ (hok d rfl)
  · next e => exact readWithin_error (herr e rfl)

theorem readWord_within (c : Cursor) : ReadWithin c (readWord c) := by
  unfold readWord
  split
  · next word d h =>
    have hd := readName_reaches h
    exact readWithin_ok ⟨shows_self c, hd.shows⟩ hd
  · next e h => exact readWithin_error (readName_shows h)

theorem readQuoted_within (quote : Char) (c : Cursor) : ReadWithin c (readQuoted quote c) := by
  unfold readQuoted
  split
  · next value d h =>
    have hd := (reaches_advance c).trans (readString_reaches h)
    exact readWithin_ok ⟨shows_self c, hd.shows⟩ hd
  · next e h =>
    refine readWithin_error ?_
    rcases readString_shows h with hs | hs
    · rw [hs]
      exact shows_self c
    · exact (reaches_advance c).shows_of_shows hs

theorem readPrivateName_within (c : Cursor) : ReadWithin c (readPrivateName c) := by
  unfold readPrivateName
  dsimp only
  split
  · split
    · next word d h =>
      have hd := (reaches_advance c).trans (readName_reaches h)
      exact readWithin_ok ⟨shows_self c, hd.shows⟩ hd
    · next e h =>
      exact readWithin_error ((reaches_advance c).shows_of_shows (readName_shows h))
  · exact readWithin_error (shows_self c)

theorem readPunctuator_within (ch : Char) (c : Cursor) : ReadWithin c (readPunctuator ch c) := by
  unfold readPunctuator
  split
  · next p h =>
    have hd := reaches_advanceBy p.label.length c
    exact readWithin_ok ⟨shows_self c, hd.shows⟩ hd
  · exact readWithin_error (shows_self c)

theorem readToken_within (exprAllowed : Bool) (c : Cursor) :
    ReadWithin c (readToken exprAllowed c) := by
  unfold readToken
  split
  · exact readWithin_ok ⟨shows_self c, shows_self c⟩ (Reaches.refl c)
  · next ch _ =>
    split
    · exact readWord_within c
    · split
      · exact rawTokenTo_within (fun d => readNumber_reaches) (fun e => readNumber_shows)
      · split
        · exact readQuoted_within ch c
        · split
          · exact rawTokenTo_within (fun d => readRegexp_reaches) (fun e => readRegexp_shows)
          · split
            · exact readPrivateName_within c
            · exact readPunctuator_within ch c

theorem readTemplateToken_within (prev : Kind) (c : Cursor) :
    ReadWithin c (readTemplateToken prev c) := by
  unfold readTemplateToken
  split
  · unfold readChunkDelimiter
    dsimp only
    split
    · have hd := reaches_advanceBy 2 c
      exact readWithin_ok ⟨shows_self c, hd.shows⟩ hd
    · have hd := reaches_advance c
      exact readWithin_ok ⟨shows_self c, hd.shows⟩ hd
  · refine rawTokenTo_within (fun d => readChunk_reaches) (fun e he => ?_)
    rw [readChunk_pos he]
    exact shows_self c

/-- All that a step shows lies at or behind the cursor `c`. -/
structure Step.Within (c : Cursor) (s : Step) : Prop where
  comments : ∀ k ∈ s.comments, Covers c k
  token : ∀ t, s.outcome = .ok t → Covers c t
  shows_error : ∀ e, s.outcome = .error e → c.Shows e.pos

/-- The scanner stands at or behind the cursor `c`, and so does its error, if it has failed. -/
structure Within (c : Cursor) (s : Scanner) : Prop where
  reaches : c.Reaches s.cursor
  shows_failure : ∀ e, s.failure = some e → c.Shows e.pos

theorem finish_within {c : Cursor} {s : Scanner} {newline : Bool} {comments : List Token}
    {read : Except LexError (Token × Cursor)} (hs : s.Within c)
    (hcomments : ∀ k ∈ comments, Covers c k) (hread : ReadWithin c read) :
    (s.finish newline comments read).Within c ∧
      (s.finish newline comments read).scanner.Within c := by
  unfold finish
  split
  · next e =>
    have he := hread.shows_error e rfl
    refine ⟨⟨hcomments, fun t h => (by cases h), fun f h => ?_⟩, ⟨hs.reaches, fun f h => ?_⟩⟩
    · cases h; exact he
    · cases h; exact he
  · next t d =>
    obtain ⟨ht, hd⟩ := hread.token t d rfl
    refine ⟨⟨hcomments, fun u h => ?_, fun f h => (by cases h)⟩, ⟨hd, hs.shows_failure⟩⟩
    cases h
    exact ht

theorem ReadWithin.mono {c d : Cursor} {r : Except LexError (Token × Cursor)} (h : c.Reaches d)
    (hr : ReadWithin d r) : ReadWithin c r where
  token t e he := ⟨(hr.token t e he).1.mono h, h.trans (hr.token t e he).2⟩
  shows_error e he := h.shows_of_shows (hr.shows_error e he)

/-- **One step stays behind the cursor it starts from**, in what it shows and in where it leaves
the scanner. -/
theorem next_within {c : Cursor} {s : Scanner} (hs : s.Within c) :
    s.next.Within c ∧ s.next.scanner.Within c := by
  unfold next
  split
  · next e he =>
    refine ⟨⟨fun k hk => (by cases hk), fun t h => (by cases h), fun f h => ?_⟩, hs⟩
    cases h
    exact hs.shows_failure e he
  · split
    · exact finish_within hs (fun k hk => by cases hk)
        ((readTemplateToken_within s.prev s.cursor).mono hs.reaches)
    -- Ordinary code: the trivia leads to where the token starts.
    · have ht : (if s.atStart then readLeadingTrivia s.cursor
          else readTrivia false s.cursor).Within c := by
        split
        · exact (readLeadingTrivia_within s.cursor).mono hs.reaches
        · exact (readTrivia_within false s.cursor).mono hs.reaches
      dsimp only
      split
      · next e he =>
        exact finish_within hs ht.comments (readWithin_error (ht.shows_error e he))
      · next d hd =>
        exact finish_within hs ht.comments
          ((readToken_within s.situation.exprAllowed d).mono (ht.reaches d hd))

/-- **So does every run.** -/
theorem steps_within {c : Cursor} {s : Scanner} (hs : s.Within c) (count : Nat) :
    ∀ step ∈ s.steps count, step.Within c := by
  induction count generalizing s with
  | zero => intro step h; cases h
  | succ count ih =>
    intro step h
    rcases List.mem_cons.mp h with rfl | h
    · exact (next_within hs).1
    · exact ih (next_within hs).2 step h

/-- A scan starts at the start of its source, or behind the mark there. -/
theorem ofSource_within (source : Bytes) :
    (Scanner.ofSource source).Within (Cursor.ofSource source) := by
  refine ⟨?_, fun e h => by cases h⟩
  unfold Scanner.ofSource
  dsimp only
  split
  · exact reaches_advance _
  · exact Reaches.refl _

end Scanner

end ScriptTidy
