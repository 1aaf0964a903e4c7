import ScriptTidy.Proofs.Scanner.Lockstep

/-!
# Comments and white space, both ways

What the readers of trivia find out about a source, and what they do on a text that is known.
The values of comments are described without the source: a line comment holds no line end, a
block comment does not hold its own end.

* `findCommentEnd_sound`, `findCommentEnd_complete` : the end of a block comment is the first
  one, and the flag tells whether a line ends before it.
* `readTrivia_stops` : trivia ends where neither white space nor a comment starts.
-/

namespace ScriptTidy.Scanner

open Cursor

/-- A line ends within the text. -/
def holdsLineEnd (v : Bytes) : Bool := (Utf8.chars v).any isLineTerminator

/-- The text holds the end of a block comment. -/
def HoldsCommentEnd (v : Bytes) : Prop := [0x2A, 0x2F] <:+: v

theorem holdsLineEnd_glyphs {gs : List Glyph} (h : Utf8.IsDecoding gs) :
    holdsLineEnd (gs.flatMap (·.bytes)) = gs.any fun g => isLineTerminator g.char := by
  rw [holdsLineEnd, Utf8.chars, show Utf8.glyphs _ = gs from h, List.any_map]
  rfl

/-- The end of a comment can be looked for in bytes or in characters. -/
theorem holdsCommentEnd_iff {v : Bytes} : HoldsCommentEnd v ↔ ['*', '/'] <:+: Utf8.chars v := by
  constructor
  · rintro ⟨x, y, rfl⟩
    refine ⟨Utf8.chars x, Utf8.chars y, ?_⟩
    have hfresh : Utf8.Fresh ((0x2A : UInt8) :: 0x2F :: y) := Utf8.fresh_cons (by decide)
    have hxy : x ++ [0x2A, 0x2F] ++ y = x ++ 0x2A :: 0x2F :: y := by simp
    rw [hxy, Utf8.chars, Utf8.chars, Utf8.chars, Utf8.glyphs_append x hfresh,
      Utf8.glyphs_ascii_cons (by decide), Utf8.glyphs_ascii_cons (by decide)]
    simp
  · rintro ⟨x, y, hxy⟩
    have hdec := Utf8.isDecoding_glyphs v
    obtain ⟨gs, ys, hglyphs, hgs, hys⟩ := List.map_eq_append_iff.mp hxy.symm
    obtain ⟨xs, mid, rfl, hxs, hmid⟩ := List.map_eq_append_iff.mp hgs
    obtain ⟨g, gs', rfl, hg, hgs'⟩ := List.map_eq_cons_iff.mp hmid
    obtain ⟨k, ks, rfl, hk, hks⟩ := List.map_eq_cons_iff.mp hgs'
    obtain rfl : ks = [] := List.map_eq_nil_iff.mp hks
    -- both characters are written in their own byte
    have hbytes : ∀ (h : Glyph) (ch : Char), h ∈ Utf8.glyphs v → h.char = ch →
        ch ≠ replacementChar → h.bytes = Utf8.encodeChar ch := by
      rintro h ch hmem rfl hne
      rcases hdec.bytes_eq h hmem with hr | hb
      · exact absurd hr hne
      · exact hb
    have hgb : g.bytes = [0x2A] := hbytes g '*' (by rw [hglyphs]; simp) hg (by decide)
    have hkb : k.bytes = [0x2F] := hbytes k '/' (by rw [hglyphs]; simp) hk (by decide)
    refine ⟨xs.flatMap (·.bytes), ys.flatMap (·.bytes), ?_⟩
    rw [← Utf8.bytes_glyphs v, hglyphs]
    simp [hgb, hkb]

/-- **The end that is found is the first one.** -/
theorem findCommentEnd_sound {newline b : Bool} {c d : Cursor}
    (h : findCommentEnd newline c = some (d, b)) :
    ∃ gs, c.Reads gs d ∧ b = (newline || gs.any fun g => isLineTerminator g.char)
      ∧ ¬ ['*', '/'] <:+: gs.map (·.char) := by
  fun_induction findCommentEnd newline c with
  | case1 => cases h
  | case2 newline c ch e hn hc =>
    cases h
    exact ⟨[], Reads.refl _, by simp, by simp⟩
  | case3 newline c ch e hn hc ih =>
    obtain ⟨gs, hgs, hb, hclose⟩ := ih h
    obtain ⟨g, hg, rfl⟩ := reads_of_next? hn
    refine ⟨g :: gs, hg.trans hgs, ?_, ?_⟩
    · rw [hb, List.any_cons, Bool.or_assoc]
    · rw [List.map_cons, List.infix_cons_iff]
      rintro (hpre | hinf)
      · obtain ⟨r, hr⟩ := hpre
        obtain ⟨hstar, hrest⟩ := List.cons.inj hr
        cases gs with
        | nil => cases hrest
        | cons k ks =>
          refine hc ⟨hstar.symm, ?_⟩
          rw [peek?_eq_head?, hgs.rest_eq]
          exact congrArg some (List.cons.inj hrest).1.symm
      · exact hclose hinf

theorem findCommentEnd_complete {gs r : List Glyph} {star slash : Glyph} {c : Cursor}
    (newline : Bool) (hc : c.rest = gs ++ star :: slash :: r) (hstar : star.char = '*')
    (hslash : slash.char = '/') (hclose : ¬ ['*', '/'] <:+: gs.map (·.char)) :
    findCommentEnd newline c = some (c.advanceBy gs.length,
      newline || gs.any fun g => isLineTerminator g.char) := by
  induction gs generalizing c newline with
  | nil =>
    rw [findCommentEnd_eq, next?_of_cons hc]
    dsimp only
    rw [if_pos ⟨hstar, by rw [peek?_eq_head?, advance_rest, hc]; exact congrArg some hslash⟩]
    simp [advanceBy]
  | cons g gs ih =>
    rw [List.map_cons, List.infix_cons_iff, not_or] at hclose
    have hrest : c.advance.rest = gs ++ star :: slash :: r := by
      rw [advance_rest, hc]
      rfl
    rw [findCommentEnd_eq, next?_of_cons hc]
    dsimp only
    -- a star here and a slash behind it would be an earlier end
    rw [if_neg, ih _ hrest hclose.2, List.any_cons, Bool.or_assoc]
    · rfl
    · rintro ⟨hg, hpeek⟩
      rw [peek?_eq_head?, hrest] at hpeek
      cases gs with
      | nil =>
        have : star.char = '/' := by simpa using hpeek
        rw [hstar] at this
        exact absurd this (by decide)
      | cons k ks =>
        have hk : k.char = '/' := by simpa using hpeek
        exact hclose.1 ⟨ks.map (·.char), by simp [hg, hk]⟩

/-! ## Where trivia ends -/

/-- Neither white space nor a line end nor a comment starts at the cursor. -/
structure TriviaEnds (c : Cursor) : Prop where
  lineEnd : ∀ ch ∈ c.peek?, isLineTerminator ch = false
  space : ∀ ch ∈ c.peek?, isScriptSpace ch = false
  comment : c.peek? = some '/' → c.peekSecond? ≠ some '*' ∧ c.peekSecond? ≠ some '/'

theorem triviaEnds_of_nil {c : Cursor} (h : c.rest = []) : TriviaEnds c where
  lineEnd ch hch := by simp [peek?_eq_head?, h] at hch
  space ch hch := by simp [peek?_eq_head?, h] at hch
  comment hch := by simp [peek?_eq_head?, h] at hch

theorem peek?_of_next? {c d : Cursor} {ch : Char} (h : c.next? = some (ch, d)) :
    c.peek? = some ch ∧ c.peekSecond? = d.peek? := by
  obtain ⟨g, hg, rfl⟩ := reads_of_next? h
  refine ⟨?_, ?_⟩
  · rw [peek?_eq_head?, hg.rest_eq]
    rfl
  · rw [peekSecond?, peek?_eq_head?, hg.rest_eq]
    rfl

theorem readTrivia_stops {newline : Bool} {c d : Cursor}
    (h : (readTrivia newline c).outcome = .ok d) : TriviaEnds d := by
  fun_induction readTrivia newline c with
  | case1 newline c hn => cases h; exact triviaEnds_of_nil (next?_eq_none.mp hn)
  | case2 newline c ch e hn hl ih => exact ih h
  | case3 newline c ch e hn hl hs ih => exact ih h
  | case4 => cases h
  | case5 newline c e hp close nl he stop hn hl hs ih => exact ih h
  | case6 newline c e hp hq comment hn hl hs ih => exact ih h
  | case7 newline c e hp hq hn hl hs =>
    cases h
    obtain ⟨hpeek, hsecond⟩ := peek?_of_next? hn
    rw [← hsecond] at hp hq
    refine ⟨fun ch hch => ?_, fun ch hch => ?_, fun _ => ⟨hp, hq⟩⟩
    · obtain rfl : '/' = ch := by simpa [hpeek] using hch
      exact Bool.eq_false_iff.mpr hl
    · obtain rfl : '/' = ch := by simpa [hpeek] using hch
      exact Bool.eq_false_iff.mpr hs
  | case8 newline c x e hn hl hs hslash =>
    cases h
    obtain ⟨hpeek, _⟩ := peek?_of_next? hn
    refine ⟨fun ch hch => ?_, fun ch hch => ?_, fun hch => ?_⟩
    · obtain rfl : x = ch := by simpa [hpeek] using hch
      exact Bool.eq_false_iff.mpr hl
    · obtain rfl : x = ch := by simpa [hpeek] using hch
      exact Bool.eq_false_iff.mpr hs
    · rw [hpeek, Option.some.injEq] at hch
      exact absurd hch hslash

end ScriptTidy.Scanner
