import ScriptTidy.Proofs.Layout.TokenOrder
import ScriptTidy.Proofs.Layout.TemplateText
import ScriptTidy.Proofs.Scanner.LongestMatch

/-!
# Tokens start with characters

A byte that is no part of a character is left for the punctuators, and none of them starts with it.
So no source can start with such a byte and no token of code either, and a source that is a part of
a longer text cannot go on with a character that stands before it.

* `readToken_of_stray` : a stray byte is an error.
* `clear_of_tokenize` : sources do not start with one.
* `exists_clear_start` : tokens start with a character, or have one behind them that does.
-/

namespace ScriptTidy

open Scanner

/-- A character stands ahead that is no stray byte. -/
def Cursor.Clear (c : Cursor) : Prop :=
  ∃ g rest, c.rest = g :: rest ∧ g.char ≠ replacementChar

namespace Scanner

open Cursor

variable {source : Bytes} {s : Scanner} {c d : Cursor} {t : Token} {ts tokens : List Token}
  {exprAllowed : Bool}

/-! ## Stray bytes -/

theorem firstChar_ne_replacementChar (p : Punctuator) : p.firstChar ≠ replacementChar := by
  cases p <;> decide

/-- A stray byte is an error. -/
theorem readToken_of_stray (exprAllowed : Bool) (h : c.peek? = some replacementChar) :
    ∃ e, readToken exprAllowed c = .error e := by
  have hleft : LeftToPunctuators exprAllowed c replacementChar := by
    refine ⟨h, by decide +kernel, ?_, by decide, fun hslash => absurd hslash.1 (by decide),
      by decide⟩
    unfold startsNumber digitAhead
    rw [h]
    rfl
  rw [readToken_eq_readPunctuator hleft, readPunctuator_of_none]
  · exact ⟨_, rfl⟩
  · intro p hp
    obtain ⟨more, hmore⟩ := hp.label
    rw [p.label_toList] at hmore
    have hhead : c.peek? = some p.firstChar := by
      rw [peek?_eq_head?, ← List.head?_map, ← hmore]
      rfl
    rw [h] at hhead
    exact firstChar_ne_replacementChar p (Option.some.inj hhead).symm

theorem clear_of_readToken (hne : t.kind ≠ .eof) (h : readToken exprAllowed c = .ok (t, d)) :
    c.Clear := by
  cases hrest : c.rest with
  | nil =>
    rw [readToken_of_nil hrest] at h
    cases h
    exact absurd rfl hne
  | cons g rest =>
    refine ⟨g, rest, hrest, fun hchar => ?_⟩
    have hpeek : c.peek? = some replacementChar := by
      rw [peek?_eq_head?, hrest, ← hchar]
      rfl
    obtain ⟨e, he⟩ := readToken_of_stray exprAllowed hpeek
    rw [he] at h
    cases h

/-- Nothing is skipped in front of a stray byte. -/
theorem triviaEnds_of_stray (h : c.peek? = some replacementChar) : TriviaEnds c := by
  refine ⟨fun ch hch => ?_, fun ch hch => ?_, fun hslash => ?_⟩
  · rw [h] at hch
    cases hch
    decide
  · rw [h] at hch
    cases hch
    decide +kernel
  · rw [h] at hslash
    exact absurd hslash (by decide)

theorem tokenize_of_stray (h : (Cursor.ofSource source).peek? = some replacementChar) :
    tokenize source ≠ .ok tokens := by
  have hscanner : Scanner.ofSource source = { cursor := Cursor.ofSource source } := by
    unfold Scanner.ofSource
    dsimp only
    rw [h, if_neg (by decide)]
  have htrivia : readLeadingTrivia (Cursor.ofSource source)
      = ⟨[], false, .ok (Cursor.ofSource source)⟩ := by
    unfold readLeadingTrivia
    rw [h, if_neg fun hhash => absurd hhash.1 (by decide)]
    exact readTrivia_here (triviaEnds_of_stray h)
  intro hok
  unfold tokenize at hok
  obtain ⟨t, ht, -⟩ := collect_succ_eq_ok.mp hok
  rw [hscanner] at ht
  unfold next at ht
  dsimp only at ht
  rw [if_neg (show ({} : Situation).innermost ≠ .template by decide), if_pos rfl, htrivia] at ht
  obtain ⟨d, hd⟩ := finish_outcome ht
  obtain ⟨e, he⟩ := readToken_of_stray _ h
  rw [he] at hd
  cases hd

/-- **A source does not start with a stray byte.** -/
theorem clear_of_tokenize (h : tokenize source = .ok tokens) (hne : source ≠ []) :
    (Cursor.ofSource source).Clear := by
  cases hglyphs : Utf8.glyphs source with
  | nil =>
    have hbytes := Utf8.bytes_glyphs source
    rw [hglyphs] at hbytes
    exact absurd hbytes.symm hne
  | cons g rest =>
    have hrest : (Cursor.ofSource source).rest = g :: rest := hglyphs
    refine ⟨g, rest, hrest, fun hchar => tokenize_of_stray ?_ h⟩
    rw [peek?_eq_head?, hrest, ← hchar]
    rfl

/-! ## Tokens -/

/-- The token starts with a character. -/
def StartsClear (source : Bytes) (t : Token) : Prop :=
  ∃ c, (Cursor.ofSource source).Reaches c ∧ t.start = c.position ∧ c.Clear

/-- All tokens that are neither comments nor chunks start with characters. -/
theorem Stepped.startsClear {step : Step} (hs : s.Sound source) (h : Stepped s step)
    (ht : step.outcome = .ok t) (hne : t.kind ≠ .eof) (hchunk : t.kind ≠ .template) :
    StartsClear source t := by
  cases h with
  | failed => cases ht
  | chunk hinner hprev hread =>
    cases ht
    exact absurd rfl hchunk
  | @delimiter p hinner hprev hp hlabel =>
    cases ht
    refine ⟨s.cursor, hs.reaches, rfl, ?_⟩
    obtain ⟨more, hmore⟩ := hlabel
    rw [p.label_toList, List.cons_append] at hmore
    obtain ⟨g, rest, hrest, hchar, -⟩ := List.map_eq_cons_iff.mp hmore.symm
    exact ⟨g, rest, hrest, hchar ▸ firstChar_ne_replacementChar p⟩
  | @token comments newline c d t hinner hpasses hcomments hstops hread =>
    cases ht
    have hreach := hs.reaches.trans hpasses.reaches
    have hclear := clear_of_readToken hne hread
    rcases readToken_taken (hreach.isDecoding (Utf8.isDecoding_glyphs source)) hstops hread with
      ⟨hends, -⟩ | htaken
    · rw [hends.token] at hne
      exact absurd rfl hne
    · exact ⟨c, hreach, htaken.start, hclear⟩

theorem Stepped.comments_isComment {step : Step} (h : Stepped s step) :
    ∀ t ∈ step.comments, t.isComment = true := by
  cases h with
  | failed _ hcomments => exact hcomments
  | chunk => exact fun t ht => by cases ht
  | delimiter => exact fun t ht => by cases ht
  | token _ _ hcomments _ _ => exact hcomments

/-- **Tokens of code start with characters**, by induction on the run. -/
theorem collect_startsClear {fuel : Nat} (hs : s.Sound source) (h : collect fuel s = .ok ts) :
    ∀ t ∈ ts, t.isComment = false → t.kind ≠ .eof → t.kind ≠ .template →
      StartsClear source t := by
  induction fuel generalizing s ts with
  | zero =>
    cases h
    exact fun t ht => by cases ht
  | succ fuel ih =>
    obtain ⟨u, hu, hcases⟩ := collect_succ_eq_ok.mp h
    have hstepped := hs.stepped_of_ok hu
    intro t ht hcomment hne hchunk
    -- what comes in front of the token of the step are comments only
    have hfirst : t ∈ s.next.comments → StartsClear source t := by
      intro hmem
      rw [hstepped.comments_isComment t hmem] at hcomment
      cases hcomment
    rcases hcases with ⟨hkind, rfl⟩ | ⟨-, vs, hvs, rfl⟩
    · rcases List.mem_append.mp ht with ht | ht
      · exact hfirst ht
      · rw [List.mem_singleton.mp ht] at hne
        exact absurd hkind hne
    · rcases List.mem_append.mp ht with ht | ht
      · exact hfirst ht
      · rcases List.mem_cons.mp ht with rfl | ht
        · exact hstepped.startsClear hs hu hne hchunk
        · exact ih hs.next hvs t ht hcomment hne hchunk

/-- **Tokens start with a character, or have a token behind them that does**: the delimiter of a
chunk. -/
theorem exists_clear_start (h : tokenize source = .ok tokens) :
    ∀ t ∈ Layout.mapped tokens, ∃ c, (Cursor.ofSource source).Reaches c ∧ c.Clear
      ∧ t.start.place.le c.position.place = true ∧ t.start.offset ≤ c.offset := by
  have hclear := collect_startsClear (sound_ofSource source) h
  intro t ht
  obtain ⟨hmem, hmapped⟩ := List.mem_filter.mp ht
  obtain ⟨hcomment, hne⟩ : t.isComment = false ∧ t.kind ≠ .eof := by simpa using hmapped
  by_cases hchunk : t.kind = .template
  · obtain ⟨before, after, rfl⟩ := List.append_of_mem hmem
    obtain ⟨l, u, rest, -, rfl, hbetween⟩ := (tokenize_lexed h).wellPlaced.chunk hchunk
    obtain ⟨p, hu, -⟩ := hbetween.closes
    obtain ⟨c, hc, hstart, hclear⟩ := hclear u (by simp) (Token.isComment_of_kind hu)
      (by rw [hu]; exact Kind.noConfusion) (by rw [hu]; exact Kind.noConfusion)
    have hstop := (inOrder_tokenize h).stop t ht
    rw [← hbetween.stop, hstart] at hstop
    exact ⟨c, hc, hclear, hstop⟩
  · obtain ⟨c, hc, hstart, hclear⟩ := hclear t hmem hcomment hne hchunk
    rw [hstart]
    exact ⟨c, hc, hclear, Place.le_refl _, Int.le_refl _⟩

end Scanner

end ScriptTidy
