import ScriptTidy.Proofs.Scanner.Progress

/-!
# Where errors are reported

An error names the character that cannot be read, or the start of the token that has no end, so
that it stands in front of something that is left to read. Only the text of a template literal can
be missing altogether, and then the error stands right behind a delimiter. A source that is a part
of a document needs this: a carriage return at its end could go on with a line feed of the
document, and no error is reported behind it.

* `readToken_showsAhead`, `readTrivia_showsAhead` : errors in ordinary code.
* `Stepped.endsClear` : what a source ends with if it ends in front of the text of a template.
* `tokenize_error_place` : the place of an error of a source.
-/

namespace ScriptTidy

namespace Cursor

variable {c d : Cursor} {p : Position}

/-- A position that is shown at or behind a cursor, in front of something. -/
def ShowsAhead (c : Cursor) (p : Position) : Prop :=
  ∃ d, c.Reaches d ∧ p = d.position ∧ d.rest ≠ []

theorem showsAhead_self (h : c.rest ≠ []) : c.ShowsAhead c.position := ⟨c, Reaches.refl c, rfl, h⟩

theorem Reaches.showsAhead (h : c.Reaches d) (hp : d.ShowsAhead p) : c.ShowsAhead p := by
  obtain ⟨e, he, hpos, hrest⟩ := hp
  exact ⟨e, h.trans he, hpos, hrest⟩

theorem rest_ne_nil_of_next? {ch : Char} (h : c.next? = some (ch, d)) : c.rest ≠ [] := by
  intro hnil
  rw [next?_eq_none.mpr hnil] at h
  cases h

theorem rest_ne_nil_of_peek? {ch : Char} (h : c.peek? = some ch) : c.rest ≠ [] := by
  intro hnil
  rw [peek?, hnil] at h
  cases h

end Cursor

namespace Scanner

open Cursor

variable {c d : Cursor} {e : LexError}

/-! ## Readers -/

theorem readName_showsAhead {first : Bool} (h : readName first c = .error e) :
    c.ShowsAhead e.pos := by
  fun_induction readName first c with
  | case1 => cases h
  | case2 first c d hu f hcp hn => cases h; exact showsAhead_self (rest_ne_nil_of_next? hn)
  | case3 first c d hu n f hcp hcont hn ih =>
    have hf : c.Reaches f :=
      (reaches_next? hn).trans ((reaches_advance d).trans (readCodePoint_reaches hcp))
    exact hf.showsAhead (ih (withText_eq_error h))
  | case4 first c d hu n f hcp hcont hn => cases h; exact showsAhead_self (rest_ne_nil_of_next? hn)
  | case5 first c d hu hn => cases h; exact showsAhead_self (rest_ne_nil_of_next? hn)
  | case6 first c ch d hn hb hcont ih =>
    exact (reaches_next? hn).showsAhead (ih (withText_eq_error h))
  | case7 => cases h

theorem readRadixNumber_pos {base : Nat} (h : readRadixNumber base c = .error e) :
    e.pos = c.position := by
  unfold readRadixNumber at h
  dsimp only at h
  split at h
  next => cases h
  next => cases h; rfl

theorem readDecimalNumber_pos (h : readDecimalNumber c = .error e) : e.pos = c.position := by
  unfold readDecimalNumber at h
  dsimp only at h
  split at h
  next => cases h
  next => exact readExponent_pos h

theorem readNumber_showsAhead (hc : c.rest ≠ []) (h : readNumber c = .error e) :
    c.ShowsAhead e.pos := by
  unfold readNumber at h
  dsimp only at h
  split at h
  next f hf =>
    cases h
    have hpos : e.pos = c.position := by
      split at hf
      · exact readRadixNumber_pos hf
      · exact readDecimalNumber_pos hf
    rw [hpos]
    exact showsAhead_self hc
  next d hd =>
    have hreach : c.Reaches d := by
      split at hd
      · exact readRadixNumber_reaches hd
      · exact readDecimalNumber_reaches hd
    split at h
    next hstart =>
      cases h
      -- the name that may not follow is still ahead
      cases hpeek : d.peek? with
      | none =>
        rw [hpeek] at hstart
        cases hstart
      | some ch => exact hreach.showsAhead (showsAhead_self (rest_ne_nil_of_peek? hpeek))
    next => cases h

theorem readString_showsAhead {quote : Char} {start : Position}
    (h : readString quote start c = .error e) : e.pos = start ∨ c.ShowsAhead e.pos := by
  fun_induction readString quote start c with
  | case1 => cases h; exact .inl rfl
  | case2 => cases h
  | case3 => cases h; exact .inl rfl
  | case4 c d f hesc hn => cases h; exact .inr (showsAhead_self (rest_ne_nil_of_next? hn))
  | case5 c d text f hesc hn hq hl ih =>
    rcases ih (withText_eq_error h) with hs | hs
    · exact .inl hs
    · exact .inr (((reaches_next? hn).trans (readEscape_reaches hesc)).showsAhead hs)
  | case6 c ch d hn hq hl hb ih =>
    rcases ih (withText_eq_error h) with hs | hs
    · exact .inl hs
    · exact .inr ((reaches_next? hn).showsAhead hs)

theorem readRegexp_pos (h : readRegexp c = .error e) : e.pos = c.position := by
  unfold readRegexp at h
  split at h
  next he =>
    cases h
    exact readRegexpBody_pos he
  next => cases h

theorem rawTokenTo_eq_error {kind : Kind} {stop : Except LexError Cursor}
    (h : rawTokenTo kind c stop = .error e) : stop = .error e := by
  unfold rawTokenTo at h
  split at h
  next => cases h
  next => cases h; rfl

theorem readWord_showsAhead (h : readWord c = .error e) : c.ShowsAhead e.pos := by
  unfold readWord at h
  split at h
  next => cases h
  next hname =>
    cases h
    exact readName_showsAhead hname

theorem readQuoted_showsAhead {quote : Char} (hc : c.rest ≠ [])
    (h : readQuoted quote c = .error e) : c.ShowsAhead e.pos := by
  unfold readQuoted at h
  split at h
  next => cases h
  next hstring =>
    cases h
    rcases readString_showsAhead hstring with hpos | hpos
    · rw [hpos]
      exact showsAhead_self hc
    · exact (reaches_advance c).showsAhead hpos

theorem readPrivateName_showsAhead (hc : c.rest ≠ []) (h : readPrivateName c = .error e) :
    c.ShowsAhead e.pos := by
  unfold readPrivateName at h
  dsimp only at h
  split at h
  · split at h
    next => cases h
    next hname =>
      cases h
      exact (reaches_advance c).showsAhead (readName_showsAhead hname)
  · cases h
    exact showsAhead_self hc

theorem readPunctuator_showsAhead {ch : Char} (hc : c.rest ≠ [])
    (h : readPunctuator ch c = .error e) : c.ShowsAhead e.pos := by
  unfold readPunctuator at h
  split at h
  · cases h
  · cases h
    exact showsAhead_self hc

/-- **Errors in ordinary code stand in front of something.** -/
theorem readToken_showsAhead {exprAllowed : Bool} (h : readToken exprAllowed c = .error e) :
    c.ShowsAhead e.pos := by
  unfold readToken at h
  split at h
  next => cases h
  next ch hch =>
    have hc := rest_ne_nil_of_peek? hch
    split at h
    · exact readWord_showsAhead h
    · split at h
      · exact readNumber_showsAhead hc (rawTokenTo_eq_error h)
      · split at h
        · exact readQuoted_showsAhead hc h
        · split at h
          · rw [readRegexp_pos (rawTokenTo_eq_error h)]
            exact showsAhead_self hc
          · split at h
            · exact readPrivateName_showsAhead hc h
            · exact readPunctuator_showsAhead hc h

/-- Without its end, the text of a template is reported where it starts. -/
theorem readTemplateToken_pos {prev : Kind} (h : readTemplateToken prev c = .error e) :
    e.pos = c.position := by
  unfold readTemplateToken at h
  split at h
  next => cases h
  next => exact readChunk_pos (rawTokenTo_eq_error h)

theorem readTrivia_showsAhead {newline : Bool} (h : (readTrivia newline c).outcome = .error e) :
    c.ShowsAhead e.pos := by
  fun_induction readTrivia newline c with
  | case1 => cases h
  | case2 newline c ch d hn hl ih => exact (reaches_next? hn).showsAhead (ih h)
  | case3 newline c ch d hn hl hs ih => exact (reaches_next? hn).showsAhead (ih h)
  | case4 newline c d hp he hn hl hs => cases h; exact showsAhead_self (rest_ne_nil_of_next? hn)
  | case5 newline c d hp close nl he stop hn hl hs ih =>
    have hclose : c.Reaches close := (reaches_advanceBy 2 c).trans (findCommentEnd_reaches he)
    exact (hclose.trans (reaches_advanceBy 2 close)).showsAhead (ih h)
  | case6 newline c d hp hq comment hn hl hs ih =>
    exact (readLineComment_reaches _ c).showsAhead (ih h)
  | case7 => cases h
  | case8 => cases h

theorem readLeadingTrivia_showsAhead (h : (readLeadingTrivia c).outcome = .error e) :
    c.ShowsAhead e.pos := by
  unfold readLeadingTrivia at h
  split at h
  · exact (readLineComment_reaches _ c).showsAhead (readTrivia_showsAhead h)
  · exact readTrivia_showsAhead h

/-! ## Steps -/

variable {source : Bytes} {s : Scanner} {step : Step} {t : Token}

/-- If the source ends where the text of a template has to go on, it does not end with a carriage
return. -/
def EndsClear (source : Bytes) (s : Scanner) : Prop :=
  s.situation.innermost = .template → s.cursor.rest = [] → source.getLast? ≠ some 0x0D

/-- The position is shown in the source, and not behind a carriage return at its end. -/
def ErrorPlace (source : Bytes) (p : Position) : Prop :=
  ∃ d, (Cursor.ofSource source).Reaches d ∧ p = d.position
    ∧ (d.rest = [] → source.getLast? ≠ some 0x0D)

theorem errorPlace_of_showsAhead {p : Position} (hc : (Cursor.ofSource source).Reaches c)
    (h : c.ShowsAhead p) : ErrorPlace source p := by
  obtain ⟨d, hd, hpos, hrest⟩ := h
  exact ⟨d, hc.trans hd, hpos, fun hnil => absurd hnil hrest⟩

/-- A source that ends behind a punctuator ends with it. -/
theorem getLast?_of_taken {p : Punctuator} (hc : (Cursor.ofSource source).Reaches c)
    (ht : Taken c t d) (hkind : t.kind = .punct p) (hrest : d.rest = [])
    (hlabel : utf8 p.label ≠ []) : source.getLast? = (utf8 p.label).getLast? := by
  obtain ⟨front, hfront⟩ := hc
  obtain ⟨gs, hgs, hwritten⟩ := ht.written
  rw [hkind] at hwritten
  have hall : Utf8.glyphs source = front ++ gs := by
    have hrest' := (hfront.trans hgs).rest_eq
    rwa [hrest, List.append_nil] at hrest'
  have hsource : source = front.flatMap (·.bytes) ++ utf8 p.label := by
    rw [← hwritten, ← List.flatMap_append, ← hall, Utf8.bytes_glyphs]
  rw [hsource, List.getLast?_append, List.getLast?_eq_some_getLast hlabel, Option.some_or]

theorem opensChunk_punct {kind : Kind} (h : opensChunk kind = true) :
    ∃ p : Punctuator, kind = .punct p ∧ (p = .backQuote ∨ p = .braceR ∨ p = .parenR) := by
  rcases opensChunk_iff.mp h with rfl | rfl | rfl
  · exact ⟨_, rfl, .inl rfl⟩
  · exact ⟨_, rfl, .inr (.inl rfl)⟩
  · exact ⟨_, rfl, .inr (.inr rfl)⟩

/-- **The text of a template goes on behind a delimiter or in front of one.** -/
theorem Stepped.endsClear (hs : s.Sound source) (hclear : EndsClear source s)
    (h : Stepped s step) : EndsClear source step.scanner := by
  cases h with
  | failed => exact hclear
  -- behind a chunk its delimiter follows, so that something is left
  | chunk hinner hprev hread =>
    intro _ hrest
    have hends := readChunk_ends hread
    simp only [Scanner.behind] at hrest
    rw [chunkEnds, peek?, hrest] at hends
    cases hends
  | @delimiter p hinner hprev hp hlabel =>
    intro _ hrest
    rcases hp with rfl | rfl
    · rw [getLast?_of_taken hs.reaches (delimiter_taken hs.decoding hlabel) rfl hrest (by decide)]
      decide
    · rw [getLast?_of_taken hs.reaches (delimiter_taken hs.decoding hlabel) rfl hrest (by decide)]
      decide
  | @token comments newline c d t hinner hpasses hcomments hstops hread =>
    intro hafter hrest
    obtain ⟨p, hkind, hp⟩ := opensChunk_punct
      (opensChunk_of_after (s := { s.situation with newlineBefore := newline }) hinner hafter)
    have hreach := hs.reaches.trans hpasses.reaches
    rcases readToken_taken (hreach.isDecoding (Utf8.isDecoding_glyphs source)) hstops hread with
      ⟨hends, -⟩ | htaken
    · rw [hends.token] at hkind
      cases hkind
    · rcases hp with rfl | rfl | rfl
      all_goals
        rw [getLast?_of_taken hreach htaken hkind hrest (by decide)]
        decide

theorem finish_eq_error {newline : Bool} {comments : List Token}
    {read : Except LexError (Token × Cursor)}
    (h : (s.finish newline comments read).outcome = .error e) : read = .error e := by
  unfold finish at h
  split at h
  next => cases h; rfl
  next => cases h

/-- **An error of a step.** -/
theorem next_errorPlace (hs : s.Sound source) (hclear : EndsClear source s)
    (hf : s.failure = none) (h : s.next.outcome = .error e) : ErrorPlace source e.pos := by
  unfold next at h
  rw [hf] at h
  dsimp only at h
  split at h
  next hinner =>
    rw [readTemplateToken_pos (finish_eq_error h)]
    exact ⟨s.cursor, hs.reaches, rfl, hclear hinner⟩
  next =>
    -- the start of a source or any other place
    have hwithin : (if s.atStart then readLeadingTrivia s.cursor
        else readTrivia false s.cursor).Within s.cursor := by
      split
      · exact readLeadingTrivia_within s.cursor
      · exact readTrivia_within false s.cursor
    have hahead : ∀ f, (if s.atStart then readLeadingTrivia s.cursor
        else readTrivia false s.cursor).outcome = .error f → s.cursor.ShowsAhead f.pos := by
      split
      · exact fun f => readLeadingTrivia_showsAhead
      · exact fun f => readTrivia_showsAhead
    split at h
    next f houtcome =>
      cases finish_eq_error h
      exact errorPlace_of_showsAhead hs.reaches (hahead _ houtcome)
    next c houtcome =>
      exact errorPlace_of_showsAhead (hs.reaches.trans (hwithin.reaches c houtcome))
        (readToken_showsAhead (finish_eq_error h))

theorem Stepped.failure_eq_none (hf : s.failure = none) (h : Stepped s step)
    (ht : step.outcome = .ok t) : step.scanner.failure = none := by
  cases h with
  | failed => cases ht
  | chunk => exact hf
  | delimiter => exact hf
  | token => exact hf

/-- **An error of a run.** -/
theorem collect_errorPlace {fuel : Nat} (hs : s.Sound source) (hclear : EndsClear source s)
    (hf : s.failure = none) (h : collect fuel s = .error e) : ErrorPlace source e.pos := by
  induction fuel generalizing s with
  | zero => cases h
  | succ fuel ih =>
    have hstepped := next_stepped hf hs.decoding
    rw [collect] at h
    cases hout : s.next.outcome with
    | error f =>
      rw [hout] at h
      cases h
      exact next_errorPlace hs hclear hf hout
    | ok t =>
      rw [hout] at h
      dsimp only at h
      split at h
      next => cases h
      next =>
        split at h
        next => cases h
        next f hrest =>
          cases h
          exact ih (hstepped.sound hs) (hstepped.endsClear hs hclear)
            (hstepped.failure_eq_none hf hout) hrest

/-- **An error of a source** is shown in it, and not behind a carriage return at its end. -/
theorem tokenize_error_place (h : tokenize source = .error e) : ErrorPlace source e.pos :=
  collect_errorPlace (sound_ofSource source) (fun hinner => by cases hinner) rfl h

end Scanner

end ScriptTidy
