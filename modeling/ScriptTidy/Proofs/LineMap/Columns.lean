import Mathlib.Data.Prod.Lex
import ScriptTidy.Proofs.LineMap.Lines
import ScriptTidy.Proofs.Scanner.Positions

/-!
# Offsets, lines and columns

A line table converts both ways: from an offset by a search for its line and by decoding the line
up to the offset, and from a column by decoding the line until the column is reached. The two
decode different pieces of the text, one cut off at the offset and one at the end of the line, so
that they only agree because no cut falls into a character.

* `LineCut.lineColumn_eq`, `LineCut.offset?_eq` : both conversions at an offset behind whole
  characters of a line.
* `InLine` : the offsets that stand behind whole characters of their lines.
* `offset_lineColumn_inverse` : the conversions are inverse to each other, and lines and columns
  grow with the offset.
-/

namespace ScriptTidy.LineMap

open Utf8 (glyphs IsDecoding Fresh)

/-- The number of bytes of glyphs. -/
def glyphsLength (gs : List Glyph) : Nat := (gs.flatMap (·.bytes)).length

theorem glyphsLength_append (gs hs : List Glyph) :
    glyphsLength (gs ++ hs) = glyphsLength gs + glyphsLength hs := by
  unfold glyphsLength
  rw [List.flatMap_append, List.length_append]

theorem glyphsLength_glyphs (text : Bytes) : glyphsLength (glyphs text) = text.length := by
  unfold glyphsLength
  rw [Utf8.bytes_glyphs]

/-- Of two beginnings of a decoding, the one with fewer bytes is a beginning of the other. -/
theorem prefix_of_glyphsLength_le {gs hs all : List Glyph} (hdec : IsDecoding all)
    (hgs : gs <+: all) (hhs : hs <+: all) (hle : glyphsLength gs ≤ glyphsLength hs) :
    gs <+: hs := by
  rcases List.prefix_or_prefix_of_prefix hgs hhs with h | ⟨more, rfl⟩
  · exact h
  · rw [glyphsLength_append] at hle
    cases more with
    | nil => exact ⟨[], by rw [List.append_nil, List.append_nil]⟩
    | cons g more =>
      have hmem : g ∈ all := hgs.subset (List.mem_append_right hs List.mem_cons_self)
      have hpos := List.length_pos_iff.mpr (hdec.bytes_ne_nil g hmem)
      have hg : glyphsLength (g :: more) = g.bytes.length + glyphsLength more := by
        unfold glyphsLength
        rw [List.flatMap_cons, List.length_append]
      omega

theorem utf16Width_pos (c : Char) : 0 < utf16Width c := by
  unfold utf16Width
  split <;> decide

/-- The bytes up to the column behind some glyphs are the bytes of these glyphs. -/
theorem bytesToColumn_glyphsWidth (gs hs : List Glyph) :
    bytesToColumn (glyphsWidth gs) (gs ++ hs) = glyphsLength gs := by
  induction gs with
  | nil =>
    cases hs with
    | nil => rfl
    | cons h hs => exact if_pos (Int.le_refl 0)
  | cons g gs ih =>
    have hpos := utf16Width_pos g.char
    have hwidth : glyphsWidth (g :: gs) = utf16Width g.char + glyphsWidth gs := rfl
    have hrest : (glyphsWidth (g :: gs) : Int) - utf16Width g.char = glyphsWidth gs := by omega
    rw [List.cons_append, bytesToColumn, if_neg (by omega), hrest, ih]
    unfold glyphsLength
    rw [List.flatMap_cons, List.length_append]

/-- The search in increasing numbers ends behind the last one that is not too large. -/
theorem length_takeWhile_of_sorted {o first last i : Nat} {l : List Nat}
    (hsorted : (first :: l).Pairwise (· < ·)) (hlast : (first :: l)[i]? = some last)
    (hle : last ≤ o) (hnext : ∀ next, l[i]? = some next → o < next) :
    (l.takeWhile (fun x => decide (x ≤ o))).length = i := by
  induction l generalizing first i with
  | nil =>
    cases i with
    | zero => rfl
    | succ i => cases hlast
  | cons x l ih =>
    cases i with
    | zero =>
      have hx := hnext x rfl
      rw [List.takeWhile_cons, if_neg (by simp only [decide_eq_true_eq]; omega)]
      rfl
    | succ i =>
      have hrest := (List.pairwise_cons.mp hsorted).2
      have hget : (x :: l)[i]? = some last := hlast
      have hx : x ≤ last := by
        rcases List.mem_cons.mp (List.mem_of_getElem? hget) with rfl | hmem
        · exact Nat.le_refl _
        · exact Nat.le_of_lt ((List.pairwise_cons.mp hrest).1 last hmem)
      rw [List.takeWhile_cons, if_pos (by simp only [decide_eq_true_eq]; omega),
        List.length_cons, ih hrest hget hnext]

/-! ## Characters of a line -/

section LineCut

variable {text before content ending rest : Bytes} {line : Nat} {gs hs : List Glyph}

theorem LineCut.fresh (h : LineCut text line before content ending rest) :
    Fresh (ending ++ rest) := by
  rcases h.next with ⟨rfl, rfl, -⟩ | ⟨hending, -⟩
  · exact Utf8.fresh_nil
  · simp only [lineEnds, List.mem_cons, List.not_mem_nil, or_false] at hending
    rcases hending with rfl | rfl | rfl | rfl | rfl
    all_goals exact Utf8.fresh_cons (by decide)

/-- What ends a line goes on with no character of it. -/
theorem LineCut.glyphs_drop (h : LineCut text line before content ending rest) :
    glyphs (text.drop before.length) = glyphs content ++ glyphs (ending ++ rest) := by
  rw [h.text_eq, List.drop_left, Utf8.glyphs_append content h.fresh]

/-- A line has one place in the text. -/
theorem LineCut.unique {before' content' ending' rest' : Bytes}
    (h : LineCut text line before content ending rest)
    (h' : LineCut text line before' content' ending' rest') :
    before.length = before'.length ∧ content = content' := by
  have hbounds := h.lineBounds?_eq.symm.trans h'.lineBounds?_eq
  injection hbounds with hpair
  injection hpair with hstart hstop
  refine ⟨hstart, ?_⟩
  rw [← h.slice_content, ← h'.slice_content, hstop, hstart]

/-- The search for an offset of a line finds the line. -/
theorem LineCut.search_eq (h : LineCut text line before content ending rest)
    {o : Nat} (hlow : before.length ≤ o) (hhigh : o ≤ before.length + content.length) :
    ((ofText text).starts.tail.takeWhile (fun x => decide (x ≤ o))).length = line := by
  have hstart : (0 :: startsFrom 0 text)[line]? = some before.length := by
    rw [h.start, Nat.zero_add]
  refine length_takeWhile_of_sorted (broken_startsFrom 0 text).pairwise hstart hlow ?_
  intro next hnext
  rcases h.next with ⟨-, -, hnone⟩ | ⟨hending, hsome⟩
  · cases hnone.symm.trans hnext
  · have hpos := length_pos_of_mem_lineEnds hending
    cases hsome.symm.trans hnext
    omega

theorem glyphsLength_le_content (hgs : glyphs content = gs ++ hs) :
    glyphsLength gs ≤ content.length := by
  rw [← glyphsLength_glyphs content, hgs, glyphsLength_append]
  exact Nat.le_add_right _ _

/-- **The line and the column of an offset** behind whole characters of a line. -/
theorem LineCut.lineColumn_eq (h : LineCut text line before content ending rest)
    (hgs : glyphs content = gs ++ hs) :
    (ofText text).lineColumn ((before.length + glyphsLength gs : Nat) : Int)
      = (line, glyphsWidth gs) := by
  have hle := glyphsLength_le_content hgs
  have hlength := h.start_le
  have hmin : min ((before.length + glyphsLength gs : Nat) : Int).toNat (ofText text).text.length
      = before.length + glyphsLength gs := by
    rw [Int.toNat_natCast]
    exact Nat.min_eq_left (by show _ ≤ text.length; omega)
  have hsearch := h.search_eq (o := before.length + glyphsLength gs) (by omega) (by omega)
  have hstart : (ofText text).starts.getD line 0 = before.length := by
    rw [List.getD_eq_getElem?_getD]
    show ((0 :: startsFrom 0 text)[line]?).getD 0 = _
    rw [h.start, Nat.zero_add, Option.getD_some]
  -- the bytes up to the offset are those of whole glyphs, so that their width is known
  have hslice : (ofText text).slice before.length (before.length + glyphsLength gs)
      = gs.flatMap (·.bytes) := by
    have hcontent : content = gs.flatMap (·.bytes) ++ hs.flatMap (·.bytes) := by
      rw [← Utf8.bytes_glyphs content, hgs, List.flatMap_append]
    show (text.drop _).take _ = _
    rw [h.text_eq, List.drop_left, Nat.add_sub_cancel_left, hcontent, List.append_assoc]
    exact List.take_left
  have hdec : IsDecoding gs := (hgs ▸ Utf8.isDecoding_glyphs content).left
  have hwidth : width (gs.flatMap (·.bytes)) = glyphsWidth gs := by
    show glyphsWidth (glyphs _) = _
    rw [hdec]
  unfold lineColumn
  dsimp only
  rw [hmin, hsearch, hstart, hslice, hwidth]

/-- **The offset of a column** behind whole characters of a line. -/
theorem LineCut.offset?_eq (h : LineCut text line before content ending rest)
    (hgs : glyphs content = gs ++ hs) :
    (ofText text).offset? line (glyphsWidth gs) = some (before.length + glyphsLength gs) := by
  unfold offset?
  rw [h.lineBounds?_eq]
  dsimp only
  rw [h.slice_content, hgs, bytesToColumn_glyphsWidth]

end LineCut

/-! ## All lines -/

/-- The offset stands behind whole characters of its line, at most at the end of the line's text.
The characters are those of the text from the start of the line on. -/
def InLine (text : Bytes) (o : Nat) : Prop :=
  ∃ (line start stop : Nat) (gs : List Glyph),
    (ofText text).lineBounds? line = some (start, stop)
      ∧ gs <+: glyphs (text.drop start) ∧ o = start + glyphsLength gs ∧ o ≤ stop

variable {text : Bytes} {o o' : Nat}

theorem InLine.exists_cut (h : InLine text o) :
    ∃ (line : Nat) (before content ending rest : Bytes) (gs hs : List Glyph),
      LineCut text line before content ending rest
        ∧ glyphs content = gs ++ hs ∧ o = before.length + glyphsLength gs := by
  obtain ⟨line, start, stop, gs, hbounds, hgs, rfl, hstop⟩ := h
  obtain ⟨before, content, ending, rest, hcut⟩ :=
    LineMap.exists_cut (Int.ofNat_lt.mp (lt_lineCount hbounds).2)
  cases hcut.lineBounds?_eq.symm.trans hbounds
  -- the characters lie in the text of the line, since they do not go beyond it
  rw [hcut.glyphs_drop] at hgs
  have hdec : IsDecoding (glyphs content ++ glyphs (ending ++ rest)) := by
    rw [← Utf8.glyphs_append content hcut.fresh]
    exact Utf8.isDecoding_glyphs _
  have hle : glyphsLength gs ≤ glyphsLength (glyphs content) := by
    rw [glyphsLength_glyphs]
    omega
  obtain ⟨hs, hhs⟩ := prefix_of_glyphsLength_le hdec hgs (List.prefix_append _ _) hle
  exact ⟨line, before, content, ending, rest, gs, hs, hcut, hhs.symm, rfl⟩

/-- Lines grow with the offset. -/
theorem line_le_of_le (m : LineMap) (h : o ≤ o') : (m.lineColumn o).1 ≤ (m.lineColumn o').1 := by
  have hgrow : ∀ {a b : Nat} (l : List Nat), a ≤ b →
      (l.takeWhile (fun x => decide (x ≤ a))).length
        ≤ (l.takeWhile (fun x => decide (x ≤ b))).length := by
    intro a b l hab
    induction l with
    | nil => exact Nat.le_refl _
    | cons x l ih =>
      by_cases hx : x ≤ a
      · rw [List.takeWhile_cons_of_pos (by simpa using hx),
          List.takeWhile_cons_of_pos (by simp only [decide_eq_true_eq]; omega)]
        exact Nat.succ_le_succ ih
      · rw [List.takeWhile_cons_of_neg (by simpa using hx)]
        exact Nat.zero_le _
  exact hgrow _ (by omega)

/-- **Lines and columns grow with the offset**, as pairs. -/
theorem InLine.lineColumn_le (h : InLine text o) (h' : InLine text o') (hle : o ≤ o') :
    toLex ((ofText text).lineColumn o) ≤ toLex ((ofText text).lineColumn o') := by
  have hlines := line_le_of_le (ofText text) hle
  obtain ⟨line, before, content, ending, rest, gs, hs, hcut, hgs, rfl⟩ := h.exists_cut
  obtain ⟨line', before', content', ending', rest', gs', hs', hcut', hgs', rfl⟩ := h'.exists_cut
  rw [hcut.lineColumn_eq hgs, hcut'.lineColumn_eq hgs'] at hlines ⊢
  rw [Prod.Lex.toLex_le_toLex]
  dsimp only at hlines ⊢
  rcases Nat.lt_or_eq_of_le hlines with hlt | rfl
  · exact .inl hlt
  · -- on one line the characters up to the first offset come first
    obtain ⟨hstart, rfl⟩ := hcut.unique hcut'
    have hprefix : gs <+: gs' :=
      prefix_of_glyphsLength_le (Utf8.isDecoding_glyphs content) ⟨hs, hgs.symm⟩ ⟨hs', hgs'.symm⟩
        (by omega)
    obtain ⟨more, rfl⟩ := hprefix
    refine .inr ⟨rfl, ?_⟩
    rw [glyphsWidth_append]
    exact Nat.le_add_right _ _

/-- **Offsets and pairs of line and column are inverse** on the offsets that stand behind whole
characters of their lines and the columns of these; lines and columns grow with such offsets, and
from the end of the text on they stay the same. -/
theorem offset_lineColumn_inverse (text : Bytes) :
    (∀ o, InLine text o →
        (ofText text).offset? ((ofText text).lineColumn o).1 ((ofText text).lineColumn o).2
          = some o)
      ∧ (∀ line < (ofText text).lineCount, ∃ start stop,
        (ofText text).lineBounds? line = some (start, stop)
          ∧ ∀ gs, gs <+: glyphs ((ofText text).slice start stop) →
            ∃ o : Nat, (ofText text).offset? line (glyphsWidth gs) = some o
              ∧ (ofText text).lineColumn o = (line, glyphsWidth gs))
      ∧ (∀ o o', InLine text o → InLine text o' → o ≤ o' →
        toLex ((ofText text).lineColumn o) ≤ toLex ((ofText text).lineColumn o'))
      ∧ ∀ o : Nat, text.length ≤ o →
        (ofText text).lineColumn o = (ofText text).lineColumn text.length := by
  refine ⟨fun o ho => ?_, fun line hline => ?_, fun o o' h h' hle => h.lineColumn_le h' hle,
    fun o ho => ?_⟩
  · obtain ⟨line, before, content, ending, rest, gs, hs, hcut, hgs, rfl⟩ := ho.exists_cut
    rw [hcut.lineColumn_eq hgs]
    exact hcut.offset?_eq hgs
  · obtain ⟨before, content, ending, rest, hcut⟩ := exists_cut hline
    refine ⟨_, _, hcut.lineBounds?_eq, fun gs hgs => ?_⟩
    rw [hcut.slice_content] at hgs
    obtain ⟨hs, hhs⟩ := hgs
    exact ⟨_, hcut.offset?_eq hhs.symm, hcut.lineColumn_eq hhs.symm⟩
  · have hmin : min o text.length = text.length := Nat.min_eq_right ho
    have htext : (ofText text).text = text := rfl
    unfold lineColumn
    rw [Int.toNat_natCast, Int.toNat_natCast, htext, hmin, Nat.min_self]

/-- A character of two units in front of a line end of two bytes, and a stray byte. -/
def wideLine : Bytes := [0x61, 0xF0, 0x9F, 0x98, 0x80, 0x0D, 0x0A, 0xE2, 0x80]

/-- Behind the wide character, behind the stray bytes, and beyond the end. -/
theorem offset_lineColumn_inverse_wideLine :
    (InLine wideLine 5 ∧ (ofText wideLine).lineColumn 5 = (0, 3)
        ∧ (ofText wideLine).offset? 0 3 = some 5)
      ∧ (1 < (ofText wideLine).lineCount ∧ (ofText wideLine).lineBounds? 1 = some (7, 9)
        ∧ glyphs [0xE2] <+: glyphs ((ofText wideLine).slice 7 9)
        ∧ ∃ o : Nat, (ofText wideLine).offset? 1 1 = some o
          ∧ (ofText wideLine).lineColumn o = (1, 1))
      ∧ (InLine wideLine 8 ∧ toLex ((ofText wideLine).lineColumn 5)
          ≤ toLex ((ofText wideLine).lineColumn 8))
      ∧ wideLine.length ≤ 12
        ∧ (ofText wideLine).lineColumn 12 = (ofText wideLine).lineColumn wideLine.length := by
  obtain ⟨hoffset, hcolumn, hmono, hend⟩ := offset_lineColumn_inverse wideLine
  have hfive : InLine wideLine 5 :=
    ⟨0, 0, 5, glyphs [0x61, 0xF0, 0x9F, 0x98, 0x80], by decide, by decide +kernel,
      by decide +kernel, Nat.le_refl 5⟩
  have height : InLine wideLine 8 :=
    ⟨1, 7, 9, glyphs [0xE2], by decide, by decide +kernel, by decide +kernel, by decide⟩
  have hplace : (ofText wideLine).lineColumn 5 = (0, 3) := by decide +kernel
  have hback := hoffset 5 hfive
  rw [show ((5 : Nat) : Int) = 5 from rfl, hplace] at hback
  have hcount : 1 < (ofText wideLine).lineCount := by decide
  have hbounds : (ofText wideLine).lineBounds? 1 = some (7, 9) := by decide
  have hstray : glyphs [0xE2] <+: glyphs ((ofText wideLine).slice 7 9) := by decide +kernel
  obtain ⟨start, stop, hsome, hcolumns⟩ := hcolumn 1 hcount
  cases hbounds.symm.trans hsome
  have hstrayColumn := hcolumns _ hstray
  rw [show glyphsWidth (glyphs [0xE2]) = 1 by decide +kernel] at hstrayColumn
  exact ⟨⟨hfive, hplace, hback⟩, ⟨hcount, hbounds, hstray, hstrayColumn⟩,
    ⟨height, hmono 5 8 hfive height (by decide)⟩, by decide, hend 12 (by decide)⟩

end ScriptTidy.LineMap
