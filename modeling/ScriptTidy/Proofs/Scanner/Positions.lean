import Mathlib.Data.List.Basic
import ScriptTidy.LineMap
import ScriptTidy.Proofs.Scanner.Reach
import ScriptTidy.Proofs.Text.Characters

/-!
# Two counts of lines and columns

The scanner counts lines and columns while it reads, one character at a time. A line table looks
for line ends in the raw bytes, finds the line of an offset by search and decodes the start of
that line anew. Documents with inline scripts add positions of the first kind to positions of the
second, so the two have to agree on every text, however badly it is encoded:

- `startsFrom_eq_glyphStarts`: the raw bytes hold a line end exactly where a glyph is one;
- `lineColumn_of_reaches`: at every cursor that the start of a text reaches, the table finds the
  line and the column that the cursor has counted;
- `steps_locates`: so it does at all positions that a scan shows.
-/

namespace ScriptTidy

namespace LineMap

open Utf8 (glyphs decode isTail IsDecoding)

/-- The offsets behind the line ends of a text, read glyph by glyph. -/
def glyphStarts : (offset : Nat) → List Glyph → List Nat
  | _, [] => []
  | o, g :: rest =>
    if g.char == '\r' && rest.head?.map (·.char) == some '\n' then
      glyphStarts (o + g.bytes.length) rest
    else if isLineTerminator g.char then
      (o + g.bytes.length) :: glyphStarts (o + g.bytes.length) rest
    else glyphStarts (o + g.bytes.length) rest

/-! ## Line ends in bytes and in glyphs -/

/-- A byte that starts no line end is passed over. -/
theorem startsFrom_skip {b : UInt8} {r : Bytes} (o : Nat) (h0A : b ≠ 0x0A) (h0D : b ≠ 0x0D)
    (hE2 : ∀ d s, r = 0x80 :: d :: s → b = 0xE2 → d ≠ 0xA8 ∧ d ≠ 0xA9) :
    startsFrom o (b :: r) = startsFrom (o + 1) r := by
  rw [startsFrom]
  · intro h; exact h0A h
  · intro s h hs; exact h0D h
  · intro h; exact h0D h
  · intro s h hs; exact (hE2 _ s hs h).1 rfl
  · intro s h hs; exact (hE2 _ s hs h).2 rfl

theorem startsFrom_tails {ts : Bytes} (h : ∀ b ∈ ts, isTail b = true) (o : Nat) (r : Bytes) :
    startsFrom o (ts ++ r) = startsFrom (o + ts.length) r := by
  induction ts generalizing o with
  | nil => rfl
  | cons b ts ih =>
    have hb := h b (List.mem_cons_self ..)
    rw [List.cons_append, startsFrom_skip o, ih fun c hc => h c (List.mem_cons_of_mem _ hc),
      List.length_cons, Nat.add_assoc, Nat.add_comm 1]
    · rintro rfl; cases hb
    · rintro rfl; cases hb
    · rintro d s _ rfl; cases hb

/-- All bytes of a glyph but the first can stand nowhere else. -/
theorem decode_tails (b : UInt8) (r : Bytes) :
    ∀ c ∈ r.take (decode b r).2, isTail c = true := by
  rcases Utf8.decode_cases b r with ⟨h, hd⟩ | ⟨c, s, rfl, h, hc⟩ | ⟨c, d, s, rfl, h, hc, hd⟩ |
    ⟨c, d, e, s, rfl, h, hc, hd, he⟩ | ⟨h, hd⟩
  · rw [hd]
    intro x hx
    cases hx
  · rw [Utf8.decode_two h hc]
    intro x hx
    simp only [List.take_succ_cons, List.take_zero, List.mem_singleton] at hx
    rw [hx]
    exact hc
  · rw [Utf8.decode_three h hc hd]
    intro x hx
    simp only [List.take_succ_cons, List.take_zero, List.mem_cons, List.not_mem_nil,
      or_false] at hx
    rcases hx with rfl | rfl
    · exact Utf8.isTail_of_isSecondOfThree hc
    · exact hd
  · rw [Utf8.decode_four h hc hd he]
    intro x hx
    simp only [List.take_succ_cons, List.take_zero, List.mem_cons, List.not_mem_nil,
      or_false] at hx
    rcases hx with rfl | rfl | rfl
    · exact Utf8.isTail_of_isSecondOfFour hc
    · exact hd
    · exact he
  · rw [hd]
    intro x hx
    cases hx

/-- Bytes that are read as something else than a line end hold none. -/
theorem startsFrom_glyph {b : UInt8} {r : Bytes} (h : isLineTerminator (decode b r).1 = false)
    (o : Nat) :
    startsFrom o (b :: r) =
      startsFrom (o + (b :: r.take (decode b r).2).length) (r.drop (decode b r).2) := by
  -- The first byte starts no line end, and the others are tails, which end none.
  have hskip : startsFrom o (b :: r) = startsFrom (o + 1) r := by
    refine startsFrom_skip o ?_ ?_ ?_
    · rintro rfl
      exact absurd h (by simp [Utf8.decode, isLineTerminator])
    · rintro rfl
      exact absurd h (by simp [Utf8.decode, isLineTerminator])
    · rintro d s rfl rfl
      constructor
      · rintro rfl
        rw [Utf8.decode_three (by decide) (by decide) (by decide)] at h
        exact absurd h (by decide)
      · rintro rfl
        rw [Utf8.decode_three (by decide) (by decide) (by decide)] at h
        exact absurd h (by decide)
  have htails := startsFrom_tails (decode_tails b r) (o + 1) (r.drop (decode b r).2)
  rw [List.take_append_drop] at htails
  rw [hskip, htails, List.length_cons, Nat.add_assoc, Nat.add_comm 1]

/-- A glyph that is no line end is passed over. -/
theorem glyphStarts_skip {g : Glyph} (h : isLineTerminator g.char = false) (o : Nat)
    (rest : List Glyph) :
    glyphStarts o (g :: rest) = glyphStarts (o + g.bytes.length) rest := by
  have hcr : (g.char == '\r') = false := by
    rw [beq_eq_false_iff_ne]
    intro hc
    rw [hc] at h
    cases h
  rw [glyphStarts, hcr, Bool.false_and, if_neg Bool.false_ne_true, if_neg (by rw [h]; simp)]

/-- A glyph that is a line end is read from the bytes of that line end. -/
theorem terminator_bytes {b : UInt8} {r : Bytes} (h : isLineTerminator (decode b r).1 = true) :
    b :: r = Utf8.encodeChar (decode b r).1 ++ r.drop (decode b r).2 := by
  rcases Utf8.encode_decode b r with hrep | henc
  · rw [hrep] at h
    exact absurd h (by decide)
  · rw [← henc, List.cons_append, List.take_append_drop]

theorem glyphs_head_newline (r : Bytes) :
    (glyphs r).head?.map (·.char) = some '\n' ↔ ∃ s, r = 0x0A :: s := by
  constructor
  · intro h
    cases r with
    | nil => rw [Utf8.glyphs_nil] at h; cases h
    | cons b r =>
      rw [Utf8.glyphs_cons] at h
      have hchar : (decode b r).1 = '\n' := Option.some.inj h
      have hbytes := terminator_bytes (b := b) (r := r) (by rw [hchar]; decide)
      rw [hchar] at hbytes
      exact ⟨_, hbytes⟩
  · rintro ⟨s, rfl⟩
    rw [Utf8.glyphs_ascii_cons (by decide)]
    rfl

theorem startsFrom_cr {s : Bytes} (h : ∀ t, s ≠ 0x0A :: t) (o : Nat) :
    startsFrom o (0x0D :: s) = (o + 1) :: startsFrom (o + 1) s := by
  rw [startsFrom]
  intro t ht
  exact h t ht

/-- **The raw bytes hold a line end exactly where a glyph is one.** -/
theorem startsFrom_eq_glyphStarts (o : Nat) (text : Bytes) :
    startsFrom o text = glyphStarts o (glyphs text) := by
  match text with
  | [] => rw [Utf8.glyphs_nil]; rfl
  | b :: r =>
    have hle := Utf8.decode_le b r
    cases hterm : isLineTerminator (decode b r).1 with
    | false =>
      rw [startsFrom_glyph hterm, Utf8.glyphs_cons, glyphStarts_skip hterm]
      exact startsFrom_eq_glyphStarts _ (r.drop (decode b r).2)
    | true =>
      have hbytes := terminator_bytes hterm
      have ih := fun k => startsFrom_eq_glyphStarts k (r.drop (decode b r).2)
      rw [isLineTerminator_iff] at hterm
      rw [hbytes, Utf8.glyphs_encodeChar]
      -- From here on only the character and the text behind it count.
      generalize (decode b r).1 = ch at hterm hbytes ⊢
      generalize hs : r.drop (decode b r).2 = s at hbytes ih ⊢
      rcases hterm with h | h | h | h
      · have hch : ch = '\n' := Char.toNat_inj.mp h
        subst hch
        rw [show Utf8.encodeChar '\n' = [0x0A] by decide, List.singleton_append, startsFrom, ih]
        rfl
      · have hch : ch = '\r' := Char.toNat_inj.mp h
        subst hch
        rw [show Utf8.encodeChar '\r' = [0x0D] by decide, List.singleton_append]
        by_cases hlf : ∃ t, s = 0x0A :: t
        · -- the pair is one line end: the glyph of the carriage return opens no line
          obtain ⟨t, rfl⟩ := hlf
          rw [startsFrom, Utf8.glyphs_ascii_cons (by decide),
            startsFrom_eq_glyphStarts (o + 2) t]
          rfl
        · rw [startsFrom_cr (fun t ht => hlf ⟨t, ht⟩), ih, glyphStarts,
            if_neg (by simp only [Bool.and_eq_true, beq_iff_eq, glyphs_head_newline]
                       exact fun hpair => hlf hpair.2)]
          rfl
      · have hch : ch = lineSeparator := Char.toNat_inj.mp h
        subst hch
        rw [show Utf8.encodeChar lineSeparator = [0xE2, 0x80, 0xA8] by decide, List.cons_append,
          List.cons_append, List.singleton_append, startsFrom, ih]
        rfl
      · have hch : ch = paragraphSeparator := Char.toNat_inj.mp h
        subst hch
        rw [show Utf8.encodeChar paragraphSeparator = [0xE2, 0x80, 0xA9] by decide,
          List.cons_append, List.cons_append, List.singleton_append, startsFrom, ih]
        rfl
termination_by text.length
decreasing_by
  · grind
  · grind
  · grind

/-! ## Counting along with the table -/

/-- The UTF-16 width of glyphs. -/
def glyphsWidth (gs : List Glyph) : Nat := gs.foldr (fun g n => utf16Width g.char + n) 0

theorem glyphsWidth_append (gs hs : List Glyph) :
    glyphsWidth (gs ++ hs) = glyphsWidth gs + glyphsWidth hs := by
  induction gs with
  | nil => exact (Nat.zero_add _).symm
  | cons g gs ih =>
    show utf16Width g.char + glyphsWidth (gs ++ hs) = utf16Width g.char + glyphsWidth gs + _
    rw [ih, Nat.add_assoc]

theorem length_bytes_concat (gs : List Glyph) (g : Glyph) :
    ((gs ++ [g]).flatMap (·.bytes)).length
      = (gs.flatMap (·.bytes)).length + g.bytes.length := by
  rw [List.flatMap_append, List.length_append, List.flatMap_singleton]

/-- A cursor that has read the glyphs `above` up to the start of its line and the glyphs `line`
of it, behind the line ends at the offsets `ends`. -/
structure Tracks (text : Bytes) (c : Cursor) (above line : List Glyph) (ends : List Nat) :
    Prop where
  glyphs_eq : glyphs text = above ++ line ++ c.rest
  offset_eq : c.offset = ((above ++ line).flatMap (·.bytes)).length
  starts_eq : startsFrom 0 text = ends ++ glyphStarts c.offset c.rest
  line_eq : c.line = ends.length + 1
  ends_le : ∀ x ∈ ends, x ≤ c.offset
  lineStart_eq : (0 :: ends).getLast? = some (above.flatMap (·.bytes)).length
  column_eq : c.column = glyphsWidth line

theorem tracks_ofSource (text : Bytes) : Tracks text (Cursor.ofSource text) [] [] [] where
  glyphs_eq := rfl
  offset_eq := rfl
  starts_eq := startsFrom_eq_glyphStarts 0 text
  line_eq := rfl
  ends_le := by intro x hx; cases hx
  lineStart_eq := rfl
  column_eq := rfl

/-- One more glyph on the same line. -/
theorem Tracks.same {text : Bytes} {c d : Cursor} {above line : List Glyph} {ends : List Nat}
    {g : Glyph} (h : Tracks text c above line ends) (hrest : c.rest = g :: d.rest)
    (hoffset : d.offset = c.offset + g.bytes.length) (hline : d.line = c.line)
    (hcolumn : d.column = c.column + utf16Width g.char)
    (hstarts : glyphStarts c.offset c.rest = glyphStarts d.offset d.rest) :
    Tracks text d above (line ++ [g]) ends where
  glyphs_eq := by rw [h.glyphs_eq, hrest]; simp
  offset_eq := by rw [hoffset, h.offset_eq, ← List.append_assoc, length_bytes_concat]
  starts_eq := by rw [h.starts_eq, hstarts]
  line_eq := by rw [hline, h.line_eq]
  ends_le := by
    intro x hx
    rw [hoffset]
    exact Nat.le_add_right_of_le (h.ends_le x hx)
  lineStart_eq := h.lineStart_eq
  column_eq := by
    rw [hcolumn, h.column_eq, glyphsWidth_append]
    rfl

/-- A glyph that ends the line. -/
theorem Tracks.newline {text : Bytes} {c d : Cursor} {above line : List Glyph} {ends : List Nat}
    {g : Glyph} (h : Tracks text c above line ends) (hrest : c.rest = g :: d.rest)
    (hoffset : d.offset = c.offset + g.bytes.length) (hline : d.line = c.line + 1)
    (hcolumn : d.column = 0)
    (hstarts : glyphStarts c.offset c.rest = d.offset :: glyphStarts d.offset d.rest) :
    Tracks text d (above ++ line ++ [g]) [] (ends ++ [d.offset]) where
  glyphs_eq := by rw [h.glyphs_eq, hrest]; simp
  offset_eq := by rw [hoffset, h.offset_eq, List.append_nil, length_bytes_concat]
  starts_eq := by rw [h.starts_eq, hstarts, List.append_assoc, List.singleton_append]
  line_eq := by rw [hline, h.line_eq, List.length_append]; rfl
  ends_le := by
    intro x hx
    rcases List.mem_append.mp hx with hx | hx
    · rw [hoffset]
      exact Nat.le_add_right_of_le (h.ends_le x hx)
    · exact Nat.le_of_eq (List.mem_singleton.mp hx)
  lineStart_eq := by
    rw [← List.cons_append, List.getLast?_concat, hoffset, h.offset_eq, length_bytes_concat]
  column_eq := hcolumn

theorem Tracks.past {text : Bytes} {c : Cursor} {above line : List Glyph} {ends : List Nat}
    (h : Tracks text c above line ends) {g : Glyph} {rest : List Glyph}
    (hrest : c.rest = g :: rest) :
    ∃ above' line' ends', Tracks text (c.past g rest) above' line' ends' := by
  have hpast : (c.past g rest).rest = rest := Cursor.past_rest c g rest
  have hoffset := Cursor.past_offset c g rest
  have hrest' : c.rest = g :: (c.past g rest).rest := by rw [hpast]; exact hrest
  have hstarts := glyphStarts.eq_2 c.offset g rest
  rw [← hrest] at hstarts
  -- The cases of `Cursor.past`: a carriage return in a pair, another line end, anything else.
  by_cases hpair : (g.char == '\r' && rest.head?.map (·.char) == some '\n') = true
  · rw [if_pos hpair] at hstarts
    have hcr : g.char = '\r' := by
      rw [Bool.and_eq_true, beq_iff_eq] at hpair
      exact hpair.1
    have hc : c.past g rest = ⟨rest, c.line, c.column + 1, c.offset + g.bytes.length⟩ := by
      unfold Cursor.past
      rw [if_pos hpair]
    refine ⟨_, _, _, h.same hrest' hoffset ?_ ?_ ?_⟩
    · rw [hc]
    · rw [hc, hcr]
      rfl
    · rw [hstarts, hoffset, hpast]
  · rw [if_neg hpair] at hstarts
    by_cases hterm : isLineTerminator g.char = true
    · rw [if_pos hterm] at hstarts
      have hc : c.past g rest = ⟨rest, c.line + 1, 0, c.offset + g.bytes.length⟩ := by
        unfold Cursor.past
        rw [if_neg hpair, if_pos hterm]
      refine ⟨_, _, _, h.newline hrest' hoffset ?_ ?_ ?_⟩
      · rw [hc]
      · rw [hc]
      · rw [hstarts, hoffset, hpast]
    · rw [if_neg hterm] at hstarts
      have hc : c.past g rest =
          ⟨rest, c.line, c.column + utf16Width g.char, c.offset + g.bytes.length⟩ := by
        unfold Cursor.past
        rw [if_neg hpair, if_neg hterm]
      refine ⟨_, _, _, h.same hrest' hoffset ?_ ?_ ?_⟩
      · rw [hc]
      · rw [hc]
      · rw [hstarts, hoffset, hpast]

/-- Every cursor that the start of a text reaches has counted along with the table. -/
theorem tracks_of_reaches {text : Bytes} {d : Cursor} (h : (Cursor.ofSource text).Reaches d) :
    ∃ above line ends, Tracks text d above line ends := by
  have hrun : ∀ (n : Nat) (c : Cursor), (∃ above line ends, Tracks text c above line ends) →
      ∃ above line ends, Tracks text (c.advanceBy n) above line ends := by
    intro n
    induction n with
    | zero => intro c hc; exact hc
    | succ n ih =>
      intro c hc
      refine ih c.advance ?_
      obtain ⟨above, line, ends, htracks⟩ := hc
      cases hrest : c.rest with
      | nil =>
        have hstay : c.advance = c := by
          unfold Cursor.advance Cursor.next?
          rw [hrest]
        rw [hstay]
        exact ⟨above, line, ends, htracks⟩
      | cons g rest =>
        rw [Cursor.advance_of_cons hrest]
        exact htracks.past hrest
  obtain ⟨gs, hgs⟩ := h
  rw [← hgs.advance_eq]
  exact hrun gs.length _ ⟨_, _, _, tracks_ofSource text⟩

/-! ## Looking a cursor up in the table -/

/-- The offsets of line ends lie behind the glyphs that end the lines. -/
theorem lt_of_mem_glyphStarts {gs : List Glyph} (hne : ∀ g ∈ gs, g.bytes ≠ []) (o : Nat) :
    ∀ x ∈ glyphStarts o gs, o < x := by
  induction gs generalizing o with
  | nil => intro x hx; cases hx
  | cons g gs ih =>
    have hg : 0 < g.bytes.length := List.length_pos_iff.mpr (hne g (List.mem_cons_self ..))
    have hgs := ih (fun k hk => hne k (List.mem_cons_of_mem _ hk)) (o + g.bytes.length)
    intro x hx
    rw [glyphStarts] at hx
    split at hx
    · have := hgs x hx
      omega
    · split at hx
      · rcases List.mem_cons.mp hx with rfl | hx
        · omega
        · have := hgs x hx
          omega
      · have := hgs x hx
        omega

theorem takeWhile_ends {ends more : List Nat} {o : Nat} (hle : ∀ x ∈ ends, x ≤ o)
    (hlt : ∀ x ∈ more, o < x) : (ends ++ more).takeWhile (fun x => decide (x ≤ o)) = ends := by
  induction ends with
  | nil =>
    cases more with
    | nil => rfl
    | cons x more =>
      have := hlt x (List.mem_cons_self ..)
      rw [List.nil_append, List.takeWhile_cons, if_neg (by simp only [decide_eq_true_eq]; omega)]
  | cons x ends ih =>
    have hx := hle x (List.mem_cons_self ..)
    rw [List.cons_append, List.takeWhile_cons, if_pos (by simpa using hx),
      ih fun y hy => hle y (List.mem_cons_of_mem _ hy)]

/-- **At every cursor that the start of a text reaches, the table finds the line and the column
that the cursor has counted.** -/
theorem lineColumn_of_reaches {text : Bytes} {d : Cursor}
    (h : (Cursor.ofSource text).Reaches d) :
    d.offset ≤ text.length ∧ d.line = ((ofText text).lineColumn d.offset).1 + 1 ∧
      d.column = ((ofText text).lineColumn d.offset).2 := by
  obtain ⟨above, line, ends, ht⟩ := tracks_of_reaches h
  have htext : text = above.flatMap (·.bytes) ++ (line.flatMap (·.bytes) ++
      d.rest.flatMap (·.bytes)) := by
    rw [← Utf8.bytes_glyphs text, ht.glyphs_eq]
    simp
  have hdec : IsDecoding (above ++ line ++ d.rest) := ht.glyphs_eq ▸ Utf8.isDecoding_glyphs text
  have hoffset : d.offset = (above.flatMap (·.bytes)).length + (line.flatMap (·.bytes)).length := by
    rw [ht.offset_eq, List.flatMap_append, List.length_append]
  have hle : d.offset ≤ text.length := by
    rw [hoffset, htext]
    simp only [List.length_append]
    omega
  -- The search stops at the line ends behind the cursor, so it counts those before it.
  have hends : ((ofText text).starts.tail.takeWhile (fun x => decide (x ≤ d.offset))) = ends := by
    show (startsFrom 0 text).takeWhile _ = ends
    rw [ht.starts_eq]
    exact takeWhile_ends ht.ends_le (lt_of_mem_glyphStarts hdec.right.bytes_ne_nil d.offset)
  have hstart : (ofText text).starts.getD ends.length 0 = (above.flatMap (·.bytes)).length := by
    show (0 :: startsFrom 0 text).getD ends.length 0 = _
    rw [ht.starts_eq, ← List.cons_append]
    have hlast := ht.lineStart_eq
    rw [List.getLast?_eq_getElem?, List.length_cons, Nat.add_sub_cancel] at hlast
    rw [List.getD_eq_getElem?_getD, List.getElem?_append_left (by simp), hlast]
    rfl
  have hslice : (ofText text).slice (above.flatMap (·.bytes)).length d.offset
      = line.flatMap (·.bytes) := by
    show (text.drop _).take _ = _
    rw [htext, List.drop_left, hoffset, Nat.add_sub_cancel_left, List.take_left]
  -- The line is decoded anew from its start, which cuts no glyph.
  have hwidth : width (line.flatMap (·.bytes)) = glyphsWidth line := by
    show glyphsWidth (glyphs _) = _
    rw [hdec.left.right]
  unfold lineColumn
  have hmin : min (d.offset : Int).toNat (ofText text).text.length = d.offset :=
    Nat.min_eq_left hle
  dsimp only
  rw [hmin, hends, hstart, hslice, hwidth, ht.line_eq, ht.column_eq]
  exact ⟨hle, rfl, rfl⟩

/-- The table finds the position at its offset. -/
def Locates (m : LineMap) (p : Position) : Prop :=
  p.line - 1 = (m.lineColumn p.offset).1 ∧ p.column = (m.lineColumn p.offset).2

theorem locates_of_shows {text : Bytes} {p : Position} (h : (Cursor.ofSource text).Shows p) :
    (ofText text).Locates p ∧ 0 ≤ p.offset ∧ p.offset ≤ text.length := by
  obtain ⟨d, hd, rfl⟩ := h
  obtain ⟨hle, hline, hcolumn⟩ := lineColumn_of_reaches hd
  refine ⟨⟨?_, ?_⟩, ?_, ?_⟩
  · show (d.line : Int) - 1 = _
    rw [hline]
    push_cast
    exact Int.add_sub_cancel _ 1
  · show (d.column : Int) = _
    rw [hcolumn]
    rfl
  · exact Int.natCast_nonneg _
  · exact Int.ofNat_le.mpr hle

end LineMap

namespace Scanner

open LineMap (ofText Locates locates_of_shows)

/-- **The two counts agree wherever a scan looks.** Whatever the source and however many steps,
the line table of the source finds the start and the end of every token and comment at their
offsets, and so it does for the place of an error, which lies within the source. -/
theorem steps_locates (source : Bytes) (count : Nat) :
    ∀ step ∈ (Scanner.ofSource source).steps count,
      (∀ k ∈ step.comments, (ofText source).Locates k.start ∧ (ofText source).Locates k.stop) ∧
      (∀ t, step.outcome = .ok t →
        (ofText source).Locates t.start ∧ (ofText source).Locates t.stop) ∧
      (∀ e, step.outcome = .error e →
        (ofText source).Locates e.pos ∧ 0 ≤ e.pos.offset ∧ e.pos.offset ≤ source.length) := by
  intro step hstep
  have hwithin := steps_within (ofSource_within source) count step hstep
  refine ⟨fun k hk => ?_, fun t ht => ?_, fun e he => ?_⟩
  · obtain ⟨hstart, hstop⟩ := hwithin.comments k hk
    exact ⟨(locates_of_shows hstart).1, (locates_of_shows hstop).1⟩
  · obtain ⟨hstart, hstop⟩ := hwithin.token t ht
    exact ⟨(locates_of_shows hstart).1, (locates_of_shows hstop).1⟩
  · exact locates_of_shows (hwithin.shows_error e he)

/-- Behind a byte order mark and a line end of two characters, nothing starts with `@`. -/
theorem steps_locates_at_sign :
    ∃ step ∈ (Scanner.ofSource [0xEF, 0xBB, 0xBF, 0x0D, 0x0A, 0x40]).steps 1,
      step.outcome = .error ⟨⟨2, 0, 5⟩, .unexpectedCharacter '@'⟩ ∧
      (ofText [0xEF, 0xBB, 0xBF, 0x0D, 0x0A, 0x40]).Locates ⟨2, 0, 5⟩ := by
  have hmem : (Scanner.ofSource [0xEF, 0xBB, 0xBF, 0x0D, 0x0A, 0x40]).next ∈
      (Scanner.ofSource [0xEF, 0xBB, 0xBF, 0x0D, 0x0A, 0x40]).steps 1 := List.mem_cons_self ..
  have herr : (Scanner.ofSource [0xEF, 0xBB, 0xBF, 0x0D, 0x0A, 0x40]).next.outcome
      = .error ⟨⟨2, 0, 5⟩, .unexpectedCharacter '@'⟩ := by decide +kernel
  exact ⟨_, hmem, herr, ((steps_locates _ 1 _ hmem).2.2 _ herr).1⟩

end Scanner

end ScriptTidy
