import ScriptTidy.Proofs.Scanner.Lexed
import ScriptTidy.Proofs.Scanner.Spelling

/-!
# The tokens of a source cover it

Nothing of a source is lost between its tokens and nothing is in two of them. The tokens and
comments follow each other in the order of their offsets, what stands in the gaps is white space
and line ends only, and each token is written in the source as its kind and value say. Names and
strings are decoded, so their text says less about the value than that of the other kinds.

Every reader takes its token off the cursor it starts at, character by character. `Taken` says
so for one token, `Passes` for all that stands between two cursors; each reader has a lemma that
it takes what it returns, and a step and a run of the scanner pass what they return.

* `next_stepped` : what one step of the scanner can be, and `next_passes` what it passes.
* `collect_passes` : what a run passes, and `tokenize_passes` for a source that is accepted.
* `tokenize_covered` : the tokens of a source that is accepted cover it.
-/

namespace ScriptTidy

/-- How a token of the kind with this value can be written. A name or reserved word is written as
its value unless there are escapes in it, and a string in two quotes of one sort. -/
def Kind.WrittenAs (kind : Kind) (value text : Bytes) : Prop :=
  match kind with
  | .num | .regexp | .template => text = value
  | .string => ∃ quote body, (quote = 0x22 ∨ quote = 0x27) ∧ text = quote :: (body ++ [quote])
  | .name | .keyword _ => 0x5C ∉ text → text = value
  | .privateName => 0x5C ∉ text → text = 0x23 :: value
  | .punct p => text = utf8 p.label
  | .lineComment => text = utf8 "//" ++ value
  | .blockComment => text = utf8 "/*" ++ value ++ utf8 "*/"
  | .hashbang => text = utf8 "#!" ++ value
  | .eof => text = []

namespace Scanner

open Cursor

/-- The characters that may stand between two tokens. -/
def isGap (ch : Char) : Bool := isScriptSpace ch || isLineTerminator ch

/-- The token was taken off the source between the two cursors. -/
structure Taken (c : Cursor) (t : Token) (d : Cursor) : Prop where
  kind : t.kind ≠ .eof
  start : t.start = c.position
  stop : t.stop = d.position
  written : ∃ gs, c.Reads gs d ∧ t.kind.WrittenAs t.value (gs.flatMap (·.bytes))
  /-- Only a template chunk can be empty. -/
  advances : t.kind ≠ .template → d.rest.length < c.rest.length

/-- The token is the end of the source, which the cursor has reached. -/
structure Ends (c : Cursor) (t : Token) : Prop where
  rest : c.rest = []
  token : t = bareToken .eof c c

/-- Between the two cursors stand these tokens, and nothing else but gaps. -/
inductive Passes : Cursor → List Token → Cursor → Prop
  | here {c} : Passes c [] c
  | gap {c d e ch ts} (hn : c.next? = some (ch, d)) (hgap : isGap ch = true)
    (h : Passes d ts e) : Passes c ts e
  | token {c d e t ts} (ht : Taken c t d) (h : Passes d ts e) : Passes c (t :: ts) e

variable {c d e : Cursor} {t : Token} {ts us : List Token}

theorem Passes.trans (h₁ : Passes c ts d) (h₂ : Passes d us e) : Passes c (ts ++ us) e := by
  induction h₁ with
  | here => exact h₂
  | gap hn hgap _ ih => exact .gap hn hgap (ih h₂)
  | token ht _ ih => exact .token ht (ih h₂)

theorem Taken.reaches (h : Taken c t d) : c.Reaches d := by
  obtain ⟨gs, hgs, _⟩ := h.written
  exact ⟨gs, hgs⟩

theorem Passes.reaches (h : Passes c ts d) : c.Reaches d := by
  induction h with
  | here => exact Reaches.refl _
  | gap hn _ _ ih => exact (reaches_next? hn).trans ih
  | token ht _ ih => exact ht.reaches.trans ih

theorem Passes.kind_ne_eof (h : Passes c ts d) : ∀ t ∈ ts, t.kind ≠ .eof := by
  induction h with
  | here =>
    intro t ht
    cases ht
  | gap _ _ _ ih => exact ih
  | token ht _ ih =>
    intro u hu
    rcases List.mem_cons.mp hu with rfl | hu
    · exact ht.kind
    · exact ih u hu

theorem Passes.taken (h : Passes c ts d) : ∀ t ∈ ts, ∃ x y, c.Reaches x ∧ Taken x t y := by
  induction h with
  | here =>
    intro t ht
    cases ht
  | gap hn _ _ ih =>
    intro t ht
    obtain ⟨x, y, hx, htaken⟩ := ih t ht
    exact ⟨x, y, (reaches_next? hn).trans hx, htaken⟩
  | token htaken _ ih =>
    intro u hu
    rcases List.mem_cons.mp hu with rfl | hu
    · exact ⟨_, _, Reaches.refl _, htaken⟩
    · obtain ⟨x, y, hx, htaken'⟩ := ih u hu
      exact ⟨x, y, htaken.reaches.trans hx, htaken'⟩

/-! ## Characters of the source -/

/-- A character that was decoded is written in its own bytes. -/
theorem bytes_eq_encodeChar {gs : List Glyph} {g : Glyph} (hdec : Utf8.IsDecoding gs)
    (hg : g ∈ gs) (hne : g.char ≠ replacementChar) : g.bytes = Utf8.encodeChar g.char := by
  rcases hdec.bytes_eq g hg with hr | hb
  · exact absurd hr hne
  · exact hb

theorem bytes_eq_of_char {gs : List Glyph} {g : Glyph} {ch : Char} (hdec : Utf8.IsDecoding gs)
    (hg : g ∈ gs) (hchar : g.char = ch) (hne : ch ≠ replacementChar) :
    g.bytes = Utf8.encodeChar ch := by
  rw [← hchar] at hne ⊢
  exact bytes_eq_encodeChar hdec hg hne

theorem bytes_eq_utf8 {gs : List Glyph} {s : String} (hdec : Utf8.IsDecoding gs)
    (hs : s.toList.all (·.toNat < 0x80) = true) (h : gs.map (·.char) = s.toList) :
    gs.flatMap (·.bytes) = utf8 s := by
  rw [utf8_eq_encodeChars hs, ← h, Utf8.encodeChars, List.flatMap_map]
  refine List.flatMap_congr fun g hg => bytes_eq_encodeChar hdec hg ?_
  intro hr
  have hmem : g.char ∈ s.toList := by
    rw [← h]
    exact List.mem_map_of_mem hg
  have hlt := List.all_eq_true.mp hs g.char hmem
  rw [hr] at hlt
  exact absurd hlt (by decide)

/-- Two characters that are ahead can be read. -/
theorem reads_two {a b : Char} (ha : c.peek? = some a) (hb : c.peekSecond? = some b) :
    ∃ gs, c.Reads gs (c.advanceBy 2) ∧ gs.map (·.char) = [a, b] := by
  obtain ⟨g, gs, hr, rfl⟩ := rest_of_peek? ha
  cases gs with
  | nil => simp [peekSecond?, hr] at hb
  | cons k ks =>
    have hk : k.char = b := by simpa [peekSecond?, hr] using hb
    have hrest : c.rest = [g, k] ++ ks := hr
    exact ⟨[g, k], reads_of_append hrest, by simp [hk]⟩

/-- An opening of two characters, given as the text it is. -/
theorem reads_opening {a b : Char} {s : String} (hdec : Utf8.IsDecoding c.rest)
    (ha : c.peek? = some a) (hb : c.peekSecond? = some b) (hs : s.toList = [a, b])
    (hascii : s.toList.all (·.toNat < 0x80) = true) :
    ∃ gs, c.Reads gs (c.advanceBy 2) ∧ gs.flatMap (·.bytes) = utf8 s := by
  obtain ⟨gs, hgs, hchars⟩ := reads_two ha hb
  exact ⟨gs, hgs, bytes_eq_utf8 (hgs.isDecoding_left hdec) hascii (hchars.trans hs.symm)⟩

/-! ## Comments -/

/-- The end that is found is one. -/
theorem findCommentEnd_peek {newline b : Bool} (h : findCommentEnd newline c = some (d, b)) :
    d.peek? = some '*' ∧ d.peekSecond? = some '/' := by
  fun_induction findCommentEnd newline c with
  | case1 => cases h
  | case2 newline c ch e hn hc =>
    cases h
    obtain ⟨hpeek, hsecond⟩ := peek?_of_next? hn
    exact ⟨hpeek.trans (congrArg some hc.1), hsecond.trans hc.2⟩
  | case3 newline c ch e hn hc ih => exact ih h

theorem blockComment_taken {newline b : Bool} (hdec : Utf8.IsDecoding c.rest)
    (ha : c.peek? = some '/') (hb : c.peekSecond? = some '*')
    (h : findCommentEnd newline (c.advanceBy 2) = some (d, b)) :
    Taken c (commentToken .blockComment c (c.advanceBy 2) d (d.advanceBy 2)) (d.advanceBy 2) := by
  have hopen := reaches_advanceBy 2 c
  have hreach := hopen.trans (findCommentEnd_reaches h)
  obtain ⟨gs, hgs, _, _⟩ := findCommentEnd_sound h
  obtain ⟨hstar, hslash⟩ := findCommentEnd_peek h
  obtain ⟨os, hos, hosBytes⟩ := reads_opening (s := "/*") hdec ha hb rfl rfl
  obtain ⟨cs, hcs, hcsBytes⟩ :=
    reads_opening (s := "*/") (hreach.isDecoding hdec) hstar hslash rfl rfl
  refine ⟨Kind.noConfusion, rfl, rfl, ⟨os ++ (gs ++ cs), hos.trans (hgs.trans hcs), ?_⟩, ?_⟩
  · show _ = utf8 "/*" ++ (c.advanceBy 2).textTo d ++ utf8 "*/"
    rw [hgs.textTo_eq (hopen.isDecoding hdec), List.flatMap_append, List.flatMap_append, hosBytes,
      hcsBytes, List.append_assoc]
  · intro _
    obtain ⟨g, rest, hrest, _⟩ := rest_of_peek? ha
    have hlt := advanceBy_two_length_lt (next?_of_cons hrest)
    have hle := (findCommentEnd_reaches h).suffix.length_le
    have hle' := (reaches_advanceBy 2 d).suffix.length_le
    omega

/-- A comment up to the end of its line, behind an opening of two characters. -/
theorem lineComment_taken {kind : Kind} {a b : Char} {s : String} (hdec : Utf8.IsDecoding c.rest)
    (ha : c.peek? = some a) (hb : c.peekSecond? = some b) (hs : s.toList = [a, b])
    (hascii : s.toList.all (·.toNat < 0x80) = true) (hla : isLineTerminator a = false)
    (hlb : isLineTerminator b = false) (hkind : kind ≠ .eof)
    (hwritten : ∀ v, kind.WrittenAs v (utf8 s ++ v)) :
    Taken c (readLineComment kind c).1 (readLineComment kind c).2 := by
  have hskip := skipLine_advanceBy_two ha hb hla hlb
  obtain ⟨os, hos, hosBytes⟩ := reads_opening hdec ha hb hs hascii
  obtain ⟨gs, hgs⟩ := reaches_skipWhile (fun ch => !isLineTerminator ch) (c.advanceBy 2)
  rw [← hskip] at hgs
  refine ⟨hkind, rfl, rfl, ⟨os ++ gs, hos.trans hgs, ?_⟩, ?_⟩
  · show kind.WrittenAs ((c.advanceBy 2).textTo (c.skipWhile _)) _
    rw [hgs.textTo_eq ((reaches_advanceBy 2 c).isDecoding hdec), List.flatMap_append, hosBytes]
    exact hwritten _
  · intro _
    obtain ⟨g, rest, hrest, rfl⟩ := rest_of_peek? ha
    exact readLineComment_length_lt (next?_of_cons hrest) hla

/-- The trivia goes from `c` to `d`; where the end of a comment is missing, `d` is the start of
that comment. -/
structure Trivia.Skips (c : Cursor) (t : Trivia) (d : Cursor) : Prop where
  passes : Passes c t.comments d
  comments : ∀ k ∈ t.comments, k.isComment = true
  outcome : ∀ e, t.outcome = .ok e → d = e

theorem Trivia.Skips.withComment {k : Token} {trivia : Trivia} (h : trivia.Skips d e)
    (ht : Taken c k d) (hk : k.isComment = true) : (trivia.withComment k).Skips c e where
  passes := .token ht h.passes
  comments x hx := by
    rcases List.mem_cons.mp hx with rfl | hx
    · exact hk
    · exact h.comments x hx
  outcome := h.outcome

/-- No trivia at all: the cursor stays, or there is an error right here. -/
theorem Trivia.skips_here {newline : Bool} {outcome : Except LexError Cursor}
    (h : ∀ e, outcome = .ok e → c = e) : Trivia.Skips c ⟨[], newline, outcome⟩ c where
  passes := .here
  comments k hk := by cases hk
  outcome := h

theorem readTrivia_skips (newline : Bool) (hdec : Utf8.IsDecoding c.rest) :
    ∃ d, (readTrivia newline c).Skips c d := by
  fun_induction readTrivia newline c with
  | case1 newline c hn => exact ⟨c, Trivia.skips_here fun e he => by cases he; rfl⟩
  | case2 newline c ch x hn hl ih =>
    obtain ⟨d, hd⟩ := ih ((reaches_next? hn).isDecoding hdec)
    have hgap : isGap ch = true := by rw [isGap, hl, Bool.or_true]
    exact ⟨d, .gap hn hgap hd.passes, hd.comments, hd.outcome⟩
  | case3 newline c ch x hn hl hs ih =>
    obtain ⟨d, hd⟩ := ih ((reaches_next? hn).isDecoding hdec)
    have hgap : isGap ch = true := by rw [isGap, hs, Bool.true_or]
    exact ⟨d, .gap hn hgap hd.passes, hd.comments, hd.outcome⟩
  | case4 newline c x hp he hn hl hs => exact ⟨c, Trivia.skips_here fun e he => by cases he⟩
  | case5 newline c x hp close nl he stop hn hl hs ih =>
    obtain ⟨hpeek, hsecond⟩ := peek?_of_next? hn
    have htaken := blockComment_taken hdec hpeek (hsecond.trans hp) he
    obtain ⟨d, hd⟩ := ih (htaken.reaches.isDecoding hdec)
    exact ⟨d, hd.withComment htaken rfl⟩
  | case6 newline c x hp hq comment hn hl hs ih =>
    obtain ⟨hpeek, hsecond⟩ := peek?_of_next? hn
    have htaken : Taken c comment.1 comment.2 :=
      lineComment_taken (s := "//") hdec hpeek (hsecond.trans hq) rfl rfl rfl rfl
        Kind.noConfusion fun v => rfl
    obtain ⟨d, hd⟩ := ih (htaken.reaches.isDecoding hdec)
    exact ⟨d, hd.withComment htaken rfl⟩
  | case7 newline c => exact ⟨c, Trivia.skips_here fun e he => by cases he; rfl⟩
  | case8 newline c => exact ⟨c, Trivia.skips_here fun e he => by cases he; rfl⟩

theorem readLeadingTrivia_skips (hdec : Utf8.IsDecoding c.rest) :
    ∃ d, (readLeadingTrivia c).Skips c d := by
  unfold readLeadingTrivia
  by_cases hhash : c.peek? = some '#' ∧ c.peekSecond? = some '!'
  · rw [if_pos hhash]
    have htaken : Taken c (readLineComment .hashbang c).1 (readLineComment .hashbang c).2 :=
      lineComment_taken (s := "#!") hdec hhash.1 hhash.2 rfl rfl rfl rfl Kind.noConfusion
        fun v => rfl
    obtain ⟨d, hd⟩ := readTrivia_skips false (htaken.reaches.isDecoding hdec)
    exact ⟨d, hd.withComment htaken rfl⟩
  · rw [if_neg hhash]
    exact readTrivia_skips false hdec

theorem readLeadingTrivia_stops (h : (readLeadingTrivia c).outcome = .ok d) : TriviaEnds d := by
  unfold readLeadingTrivia at h
  split at h
  · exact readTrivia_stops h
  · exact readTrivia_stops h

/-! ## Names and strings -/

theorem not_isIdentifierPart_replacementChar : isIdentifierPart replacementChar.toNat = false := by
  decide +kernel

/-- A name without escapes is its own text. -/
theorem readName_reads {first : Bool} {v : Bytes} (hdec : Utf8.IsDecoding c.rest)
    (h : readName first c = .ok (v, d)) :
    ∃ gs, c.Reads gs d ∧ (0x5C ∉ gs.flatMap (·.bytes) → gs.flatMap (·.bytes) = v) := by
  fun_induction readName first c generalizing v with
  | case1 => cases h; exact ⟨[], Reads.refl _, fun _ => rfl⟩
  | case2 => cases h
  | case3 first c x hu n f hcp hcont hn ih =>
    -- the escape starts with the backslash that the text may not hold
    obtain ⟨more, hmore, rfl⟩ := withText_eq_ok h
    obtain ⟨g, hg, hchar⟩ := reads_of_next? hn
    have hf : x.Reaches f := (reaches_advance x).trans (readCodePoint_reaches hcp)
    obtain ⟨es, hes⟩ := hf.trans (readName_reaches hmore)
    refine ⟨[g] ++ es, hg.trans hes, fun hno => absurd ?_ hno⟩
    have hbytes : g.bytes = Utf8.encodeChar '\\' :=
      bytes_eq_of_char (hg.isDecoding_left hdec) List.mem_cons_self hchar (by decide)
    rw [List.flatMap_append, List.flatMap_singleton, hbytes]
    exact List.mem_cons_self
  | case4 => cases h
  | case5 => cases h
  | case6 first c ch x hn hb hcont ih =>
    obtain ⟨more, hmore, rfl⟩ := withText_eq_ok h
    obtain ⟨g, hg, rfl⟩ := reads_of_next? hn
    obtain ⟨gs, hgs, htext⟩ := ih ((reaches_next? hn).isDecoding hdec) hmore
    refine ⟨[g] ++ gs, hg.trans hgs, fun hno => ?_⟩
    rw [List.flatMap_append, List.mem_append, not_or] at hno
    have hne : g.char ≠ replacementChar := by
      intro hr
      have hpart := isIdentifierPart_of_continuesName hcont
      rw [hr, not_isIdentifierPart_replacementChar] at hpart
      cases hpart
    rw [List.flatMap_append, htext hno.2, List.flatMap_singleton,
      bytes_eq_encodeChar (hg.isDecoding_left hdec) List.mem_cons_self hne]
  | case7 => cases h; exact ⟨[], Reads.refl _, fun _ => rfl⟩

theorem wordKind_writtenAs {word text : Bytes} (h : 0x5C ∉ text → text = word) :
    (wordKind word).WrittenAs word text := by
  rcases wordKind_cases word with ⟨k, hk⟩ | hk
  · rw [hk]
    exact h
  · rw [hk]
    exact h

/-- A string ends with its quote. -/
theorem readString_reads {quote : Char} {start : Position} {v : Bytes}
    (h : readString quote start c = .ok (v, d)) :
    ∃ gs g, c.Reads (gs ++ [g]) d ∧ g.char = quote := by
  fun_induction readString quote start c generalizing v with
  | case1 => cases h
  | case2 c x hn =>
    cases h
    obtain ⟨g, hg, hchar⟩ := reads_of_next? hn
    exact ⟨[], g, hg, hchar⟩
  | case3 => cases h
  | case4 => cases h
  | case5 c x text f hesc hn hq hl ih =>
    obtain ⟨more, hmore, _⟩ := withText_eq_ok h
    obtain ⟨gs, g, hgs, hchar⟩ := ih hmore
    obtain ⟨es, hes⟩ := (reaches_next? hn).trans (readEscape_reaches hesc)
    exact ⟨es ++ gs, g, by simpa using hes.trans hgs, hchar⟩
  | case6 c ch x hn hq hl hb ih =>
    obtain ⟨more, hmore, _⟩ := withText_eq_ok h
    obtain ⟨gs, g, hgs, hchar⟩ := ih hmore
    obtain ⟨k, hk, _⟩ := reads_of_next? hn
    exact ⟨k :: gs, g, hk.trans hgs, hchar⟩

/-! ## Tokens -/

section Readers

variable {exprAllowed : Bool}

theorem privateName_written {word : Bytes} (hdec : Utf8.IsDecoding c.rest)
    (hpeek : c.peek? = some '#') (h : readName true c.advance = .ok (word, d)) :
    ∃ gs, c.Reads gs d ∧ Kind.privateName.WrittenAs word (gs.flatMap (·.bytes)) := by
  obtain ⟨g, rest, hrest, hchar⟩ := rest_of_peek? hpeek
  have hg := reads_advance hrest
  have hbytes : g.bytes = Utf8.encodeChar '#' :=
    bytes_eq_of_char (hg.isDecoding_left hdec) List.mem_cons_self hchar (by decide)
  obtain ⟨gs, hgs, htext⟩ := readName_reads ((reaches_advance c).isDecoding hdec) h
  refine ⟨[g] ++ gs, hg.trans hgs, fun hno => ?_⟩
  rw [List.flatMap_append, List.mem_append, not_or] at hno
  rw [List.flatMap_append, List.flatMap_singleton, hbytes, htext hno.2]
  rfl

theorem string_written {quote : Char} {value : Bytes} (hdec : Utf8.IsDecoding c.rest)
    (hpeek : c.peek? = some quote) (hquote : quote = '"' ∨ quote = '\'')
    (h : readString quote c.position c.advance = .ok (value, d)) :
    ∃ gs, c.Reads gs d ∧ Kind.string.WrittenAs value (gs.flatMap (·.bytes)) := by
  obtain ⟨g, rest, hrest, hchar⟩ := rest_of_peek? hpeek
  obtain ⟨gs, k, hgs, hk⟩ := readString_reads h
  have hreads := (reads_advance hrest).trans hgs
  -- both quotes are written as the same byte
  have hbyte : ∀ q ∈ [g] ++ (gs ++ [k]), q.char = quote → q.bytes = [Bytes.ofAscii quote] := by
    intro q hq hqchar
    have hne : quote ≠ replacementChar := by
      rcases hquote with rfl | rfl <;> decide
    rw [bytes_eq_of_char (hreads.isDecoding_left hdec) hq hqchar hne]
    rcases hquote with rfl | rfl <;> rfl
  refine ⟨[g] ++ (gs ++ [k]), hreads, Bytes.ofAscii quote, gs.flatMap (·.bytes), ?_, ?_⟩
  · rcases hquote with rfl | rfl
    · exact Or.inl rfl
    · exact Or.inr rfl
  · simp [hbyte g (by simp) hchar, hbyte k (by simp) hk]

/-- A punctuator that is ahead is read from its own text. -/
theorem reads_label {p : Punctuator} (hdec : Utf8.IsDecoding c.rest)
    (h : p.label.toList <+: c.rest.map (·.char)) :
    ∃ gs, c.Reads gs (c.advanceBy p.label.length) ∧ gs.flatMap (·.bytes) = utf8 p.label := by
  obtain ⟨more, hmore⟩ := h
  obtain ⟨gs, rest, hrest, hchars, _⟩ := List.map_eq_append_iff.mp hmore.symm
  have hlength : p.label.length = gs.length := by
    rw [p.label_length, ← hchars, List.length_map]
  have hreads := reads_of_append hrest
  rw [← hlength] at hreads
  exact ⟨gs, hreads, bytes_eq_utf8 (hreads.isDecoding_left hdec) p.ascii_label hchars⟩

theorem readToken_written (hdec : Utf8.IsDecoding c.rest)
    (h : readToken exprAllowed c = .ok (t, d)) :
    ∃ gs, c.Reads gs d ∧ t.kind.WrittenAs t.value (gs.flatMap (·.bytes)) := by
  cases tokenForm_of_readToken h with
  | eof => exact ⟨[], Reads.refl c, rfl⟩
  | word _ hread =>
    obtain ⟨gs, hgs, htext⟩ := readName_reads hdec hread
    exact ⟨gs, hgs, wordKind_writtenAs htext⟩
  | number _ hread =>
    obtain ⟨gs, hgs⟩ := readNumber_reaches hread
    exact ⟨gs, hgs, (hgs.textTo_eq hdec).symm⟩
  | string hpeek hquote hread => exact string_written hdec hpeek hquote hread
  | regexp _ _ hread =>
    obtain ⟨gs, hgs⟩ := readRegexp_reaches hread
    exact ⟨gs, hgs, (hgs.textTo_eq hdec).symm⟩
  | privateName hpeek _ hread => exact privateName_written hdec hpeek hread
  | punct _ _ hread =>
    have hlabel := Punctuator.label_prefix_of_read? hread
    exact reads_label hdec (hlabel.trans ((List.take_prefix 4 c.rest).map _))

/-- **A token of ordinary code is taken off the cursor, or is the end of the source.** -/
theorem readToken_taken (hdec : Utf8.IsDecoding c.rest) (hstops : TriviaEnds c)
    (h : readToken exprAllowed c = .ok (t, d)) : Ends c t ∧ d = c ∨ Taken c t d := by
  have hread := readToken_sound hdec hstops.comment h
  rcases hread.lexeme with ⟨hkind, _, hrest⟩ | ⟨hkind, _, hlt⟩
  · rw [readToken_of_nil hrest] at h
    cases h
    exact Or.inl ⟨⟨hrest, rfl⟩, rfl⟩
  · exact Or.inr
      ⟨hkind, hread.start_eq, hread.stop_eq, readToken_written hdec h, fun _ => hlt⟩

/-- The whole delimiter stands where a chunk ends, not only its first character. -/
theorem label_of_chunkEnds {p : Punctuator} (hends : chunkEnds c = true)
    (hp : p = .backQuote ∨ p = .dollarBraceL)
    (hhead : c.rest.head?.map (·.char) = p.label.toList.head?) :
    p.label.toList <+: c.rest.map (·.char) := by
  have hpeek : c.peek? = p.label.toList.head? := hhead
  rcases hp with rfl | rfl
  · obtain ⟨g, rest, hrest, hchar⟩ := rest_of_peek? hpeek
    exact ⟨rest.map (·.char), by rw [hrest, List.map_cons, hchar]; rfl⟩
  · have hsecond : c.peekSecond? = some '\x7b' := by
      unfold chunkEnds at hends
      rw [show c.peek? = some '$' from hpeek] at hends
      simpa using hends
    obtain ⟨gs, hgs, hchars⟩ := reads_two hpeek hsecond
    rw [hgs.rest_eq, List.map_append, hchars]
    exact List.prefix_append _ _

end Readers

/-! ## Steps and runs -/

/-- All that a step of a scanner that has not failed can be. -/
inductive Stepped (s : Scanner) : Step → Prop
  | failed {comments : List Token} {e : LexError} {d : Cursor}
    (hpasses : Passes s.cursor comments d)
    (hcomments : ∀ k ∈ comments, k.isComment = true) :
    Stepped s ⟨comments, .error e, { s with atStart := false, failure := some e }⟩
  | chunk {d : Cursor} (hs : s.situation.innermost = .template)
    (hprev : ¬ (s.prev = .template ∧ chunkEnds s.cursor = true))
    (hread : readChunk s.cursor.position s.cursor = .ok d) :
    Stepped s ⟨[], .ok (rawToken .template s.cursor d),
      s.behind false (rawToken .template s.cursor d) d⟩
  | delimiter {p : Punctuator} (hs : s.situation.innermost = .template)
    (hprev : s.prev = .template) (hp : p = .backQuote ∨ p = .dollarBraceL)
    (hlabel : p.label.toList <+: s.cursor.rest.map (·.char)) :
    Stepped s ⟨[], .ok (bareToken (.punct p) s.cursor (s.cursor.advanceBy p.label.length)),
      s.behind false (bareToken (.punct p) s.cursor (s.cursor.advanceBy p.label.length))
        (s.cursor.advanceBy p.label.length)⟩
  | token {comments : List Token} {newline : Bool} {c d : Cursor} {t : Token}
    (hs : s.situation.innermost ≠ .template)
    (hpasses : Passes s.cursor comments c) (hcomments : ∀ k ∈ comments, k.isComment = true)
    (hstops : TriviaEnds c) (hread : readToken s.situation.exprAllowed c = .ok (t, d)) :
    Stepped s ⟨comments, .ok t, s.behind newline t d⟩

theorem template_stepped {s : Scanner} (hs : s.situation.innermost = .template) :
    Stepped s (s.finish false [] (readTemplateToken s.prev s.cursor)) := by
  unfold readTemplateToken
  by_cases hends : s.prev = .template ∧ chunkEnds s.cursor = true
  · obtain ⟨p, hp, hhead, hdelim⟩ := readChunkDelimiter_eq hends.2
    rw [if_pos hends, hdelim]
    exact .delimiter hs hends.1 hp (label_of_chunkEnds hends.2 hp hhead)
  · rw [if_neg hends]
    unfold rawTokenTo
    cases hread : readChunk s.cursor.position s.cursor with
    | error e => exact .failed .here fun k hk => by cases hk
    | ok d => exact .chunk hs hends hread

theorem ordinary_stepped {s : Scanner} {trivia : Trivia} {d : Cursor}
    (hs : s.situation.innermost ≠ .template) (hskips : trivia.Skips s.cursor d)
    (hstops : ∀ e, trivia.outcome = .ok e → TriviaEnds e) :
    Stepped s (match trivia.outcome with
      | .error e => s.finish trivia.newline trivia.comments (.error e)
      | .ok c => s.finish trivia.newline trivia.comments
          (readToken s.situation.exprAllowed c)) := by
  cases houtcome : trivia.outcome with
  | error e => exact .failed hskips.passes hskips.comments
  | ok c =>
    obtain rfl := hskips.outcome c houtcome
    dsimp only
    cases hread : readToken s.situation.exprAllowed d with
    | error e => exact .failed hskips.passes hskips.comments
    | ok r => exact .token hs hskips.passes hskips.comments (hstops d houtcome) hread

/-- **What a step can be.** -/
theorem next_stepped {s : Scanner} (hf : s.failure = none)
    (hdec : Utf8.IsDecoding s.cursor.rest) : Stepped s s.next := by
  unfold next
  rw [hf]
  by_cases hs : s.situation.innermost = .template
  · dsimp only
    rw [if_pos hs]
    exact template_stepped hs
  · dsimp only
    rw [if_neg hs]
    cases hstart : s.atStart with
    | true =>
      obtain ⟨d, hd⟩ := readLeadingTrivia_skips hdec
      exact ordinary_stepped hs hd fun e he => readLeadingTrivia_stops he
    | false =>
      obtain ⟨d, hd⟩ := readTrivia_skips false hdec
      exact ordinary_stepped hs hd fun e he => readTrivia_stops he

theorem chunk_taken (hdec : Utf8.IsDecoding c.rest) (h : readChunk c.position c = .ok d) :
    Taken c (rawToken .template c d) d := by
  obtain ⟨gs, hgs⟩ := readChunk_reaches h
  refine ⟨Kind.noConfusion, rfl, rfl, ⟨gs, hgs, ?_⟩, fun hkind => absurd rfl hkind⟩
  exact (hgs.textTo_eq hdec).symm

theorem delimiter_taken {p : Punctuator} (hdec : Utf8.IsDecoding c.rest)
    (h : p.label.toList <+: c.rest.map (·.char)) :
    Taken c (bareToken (.punct p) c (c.advanceBy p.label.length))
      (c.advanceBy p.label.length) := by
  refine ⟨Kind.noConfusion, rfl, rfl, reads_label hdec h, fun _ => ?_⟩
  have hpos := p.label_length_pos
  have hle := h.length_le
  rw [← p.label_length, List.length_map] at hle
  rw [advanceBy_rest, List.length_drop]
  omega

/-- A step passes its comments, and then its token, unless that is the end of the source. -/
theorem Stepped.passes {s : Scanner} {step : Step} (h : Stepped s step)
    (hdec : Utf8.IsDecoding s.cursor.rest) :
    ∃ d, Passes s.cursor step.comments d ∧ ∀ t, step.outcome = .ok t →
      Ends d t ∧ step.scanner.cursor = d ∨ Taken d t step.scanner.cursor := by
  cases h with
  | failed hpasses hcomments => exact ⟨_, hpasses, fun t ht => by cases ht⟩
  | chunk hs hprev hread =>
    refine ⟨s.cursor, .here, fun t ht => Or.inr ?_⟩
    cases ht
    exact chunk_taken hdec hread
  | delimiter hs hprev hp hlabel =>
    refine ⟨s.cursor, .here, fun t ht => Or.inr ?_⟩
    cases ht
    exact delimiter_taken hdec hlabel
  | token hs hpasses hcomments hstops hread =>
    refine ⟨_, hpasses, fun t ht => ?_⟩
    cases ht
    exact readToken_taken (hpasses.reaches.isDecoding hdec) hstops hread

theorem next_passes {s : Scanner} (hdec : Utf8.IsDecoding s.cursor.rest) :
    ∃ d, Passes s.cursor s.next.comments d ∧ ∀ t, s.next.outcome = .ok t →
      Ends d t ∧ s.next.scanner.cursor = d ∨ Taken d t s.next.scanner.cursor := by
  cases hf : s.failure with
  | none => exact (next_stepped hf hdec).passes hdec
  | some e =>
    unfold next
    rw [hf]
    exact ⟨s.cursor, .here, fun t ht => by cases ht⟩

/-- **A run** passes the tokens it returns, and ends with the end of the source unless it breaks
off. -/
theorem collect_passes {fuel : Nat} {s : Scanner} (hdec : Utf8.IsDecoding s.cursor.rest)
    (h : collect fuel s = .ok ts) :
    ∃ us d, Passes s.cursor us d ∧ (ts = us ∨ ∃ t, Ends d t ∧ ts = us ++ [t]) := by
  induction fuel generalizing s ts with
  | zero =>
    cases h
    exact ⟨[], s.cursor, .here, Or.inl rfl⟩
  | succ fuel ih =>
    obtain ⟨t, ht, hcases⟩ := collect_succ_eq_ok.mp h
    obtain ⟨d, hd, htoken⟩ := next_passes hdec
    rcases hcases with ⟨hkind, rfl⟩ | ⟨hkind, vs, hvs, rfl⟩
    · rcases htoken t ht with ⟨hends, _⟩ | htaken
      · exact ⟨_, d, hd, Or.inr ⟨t, hends, rfl⟩⟩
      · exact absurd hkind htaken.kind
    · rcases htoken t ht with ⟨hends, _⟩ | htaken
      · rw [hends.token] at hkind
        exact absurd rfl hkind
      have hreach := hd.reaches.trans htaken.reaches
      obtain ⟨us, e, hus, hcases⟩ := ih (hreach.isDecoding hdec) hvs
      refine ⟨s.next.comments ++ t :: us, e, hd.trans (.token htaken hus), ?_⟩
      rcases hcases with rfl | ⟨u, hends, rfl⟩
      · exact Or.inl rfl
      · exact Or.inr ⟨u, hends, by simp⟩

/-- **A source that is accepted is passed up to its end**, which is its last token. -/
theorem tokenize_passes {source : Bytes} (h : tokenize source = .ok ts) :
    ∃ us d t, Passes (Scanner.ofSource source).cursor us d ∧ Ends d t ∧ ts = us ++ [t] := by
  have hlast := (tokenize_lexed h).getLast?
  obtain ⟨us, d, hus, rfl | ⟨t, hends, rfl⟩⟩ := collect_passes
    ((ofSource_within source).reaches.isDecoding (Utf8.isDecoding_glyphs source)) h
  · -- a run that broke off would not end with the end of the source
    obtain ⟨t, ht, hkind⟩ := (Option.any_eq_true _ _).mp hlast
    exact absurd (beq_iff_eq.mp hkind) (hus.kind_ne_eof t (List.mem_of_getLast? ht))
  · exact ⟨us, d, t, hus, hends, rfl⟩

/-! ## Offsets in the source -/

/-- The characters stand in the source from the offset `a` up to the offset `b`. -/
def StandsAt (source : Bytes) (a : Int) (gs : List Glyph) (b : Int) : Prop :=
  ∃ before after, Utf8.glyphs source = before ++ gs ++ after
    ∧ a = (before.flatMap (·.bytes)).length ∧ b = a + (gs.flatMap (·.bytes)).length

/-- The bytes of the source from the offset `a` up to the offset `b`, which have to be in order
and in range. -/
def slice? (source : Bytes) (a b : Int) : Option Bytes :=
  if 0 ≤ a ∧ a ≤ b ∧ b ≤ source.length then
    some ((source.drop a.toNat).take (b - a).toNat)
  else none

theorem StandsAt.slice {source : Bytes} {a b : Int} {gs : List Glyph}
    (h : StandsAt source a gs b) : slice? source a b = some (gs.flatMap (·.bytes)) := by
  obtain ⟨before, after, hglyphs, rfl, rfl⟩ := h
  have hsource : source = before.flatMap (·.bytes) ++ gs.flatMap (·.bytes)
      ++ after.flatMap (·.bytes) := by
    rw [← Utf8.bytes_glyphs source, hglyphs, List.flatMap_append, List.flatMap_append]
  have hlength := congrArg List.length hsource
  rw [List.length_append, List.length_append] at hlength
  unfold slice?
  rw [if_pos ⟨by omega, by omega, by omega⟩]
  have hwidth : ((before.flatMap (·.bytes)).length + (gs.flatMap (·.bytes)).length
      - (before.flatMap (·.bytes)).length : Int).toNat = (gs.flatMap (·.bytes)).length := by
    omega
  rw [hwidth, Int.toNat_natCast, hsource, List.append_assoc, List.drop_left, List.take_left]

/-- A scan starts behind a gap: the mark, or nothing. -/
theorem reads_mark (source : Bytes) :
    ∃ gap, (Cursor.ofSource source).Reads gap (Scanner.ofSource source).cursor
      ∧ ∀ g ∈ gap, isGap g.char = true := by
  unfold Scanner.ofSource
  dsimp only
  by_cases hmark : (Cursor.ofSource source).peek? = some byteOrderMark
  · rw [if_pos hmark]
    obtain ⟨g, rest, hrest, hchar⟩ := rest_of_peek? hmark
    refine ⟨[g], reads_advance hrest, ?_⟩
    intro k hk
    rw [List.mem_singleton.mp hk, hchar]
    decide
  · rw [if_neg hmark]
    exact ⟨[], Reads.refl _, fun g hg => by cases hg⟩

/-- What is read stands in the source. -/
theorem standsAt_of_reads {source : Bytes} {gs : List Glyph}
    (hc : (Cursor.ofSource source).Reaches c) (h : c.Reads gs d) :
    StandsAt source c.offset gs d.offset := by
  obtain ⟨before, hbefore⟩ := hc
  refine ⟨before, d.rest, ?_, ?_, ?_⟩
  · have hrest := hbefore.rest_eq
    rw [h.rest_eq, ← List.append_assoc] at hrest
    exact hrest
  · exact congrArg Int.ofNat hbefore.offset_eq_length
  · rw [h.offset_eq]
    exact Int.natCast_add _ _

/-- The text of a token that was taken off a source. -/
theorem Taken.slice {source : Bytes} (h : Taken c t d)
    (hc : (Cursor.ofSource source).Reaches c) :
    ∃ text, slice? source t.start.offset t.stop.offset = some text
      ∧ t.kind.WrittenAs t.value text := by
  obtain ⟨gs, hgs, hwritten⟩ := h.written
  have hstart : t.start.offset = c.offset := by rw [h.start]; rfl
  have hstop : t.stop.offset = d.offset := by rw [h.stop]; rfl
  rw [hstart, hstop]
  exact ⟨_, (standsAt_of_reads hc hgs).slice, hwritten⟩

/-- The tokens cover the source from the offset on: there are gaps and tokens in turn, up to the
end of the source, which is the last token and no other. -/
inductive Covered (source : Bytes) : (offset : Int) → List Token → Prop
  | last {a : Int} {t : Token} {gap : List Glyph} (hgap : StandsAt source a gap t.start.offset)
    (hblank : ∀ g ∈ gap, isGap g.char = true) (hkind : t.kind = .eof)
    (hstart : t.start.offset = source.length) (hstop : t.stop.offset = source.length) :
    Covered source a [t]
  | token {a : Int} {t : Token} {gap : List Glyph} {text : Bytes} {rest : List Token}
    (hgap : StandsAt source a gap t.start.offset) (hblank : ∀ g ∈ gap, isGap g.char = true)
    (hkind : t.kind ≠ .eof) (htext : slice? source t.start.offset t.stop.offset = some text)
    (hwritten : t.kind.WrittenAs t.value text) (hrest : Covered source t.stop.offset rest) :
    Covered source a (t :: rest)

/-- The cursor at the end of a source stands at its length. -/
theorem offset_of_rest_eq_nil {source : Bytes} (hc : (Cursor.ofSource source).Reaches c)
    (h : c.rest = []) : c.offset = source.length := by
  obtain ⟨gs, hgs⟩ := hc
  have hrest : Utf8.glyphs source = gs := by
    have hsplit := hgs.rest_eq
    rw [h, List.append_nil] at hsplit
    exact hsplit
  rw [hgs.offset_eq_length, ← hrest, Utf8.bytes_glyphs]

/-- What a run passes covers the source, from where the gap in front of it starts. -/
theorem Passes.covered {source : Bytes} {x : Cursor} {gap : List Glyph} (h : Passes c ts d)
    (hends : Ends d t) (hx : (Cursor.ofSource source).Reaches x) (hreads : x.Reads gap c)
    (hblank : ∀ g ∈ gap, isGap g.char = true) : Covered source x.offset (ts ++ [t]) := by
  induction h generalizing x gap with
  | @here c =>
    have hc : (Cursor.ofSource source).Reaches c := hx.trans ⟨gap, hreads⟩
    have hoffset : (c.offset : Int) = source.length :=
      congrArg Int.ofNat (offset_of_rest_eq_nil hc hends.rest)
    rw [hends.token]
    exact .last (standsAt_of_reads hx hreads) hblank rfl hoffset hoffset
  | gap hn hgap _ ih =>
    -- the character makes the gap wider
    obtain ⟨g, hg, rfl⟩ := reads_of_next? hn
    refine ih hends hx (hreads.trans hg) ?_
    intro k hk
    rcases List.mem_append.mp hk with hk | hk
    · exact hblank k hk
    · rw [List.mem_singleton.mp hk]
      exact hgap
  | @token c d e u us htaken _ ih =>
    have hc : (Cursor.ofSource source).Reaches c := hx.trans ⟨gap, hreads⟩
    obtain ⟨text, htext, hwritten⟩ := htaken.slice hc
    refine .token ?_ hblank htaken.kind htext hwritten ?_
    · rw [htaken.start]
      exact standsAt_of_reads hx hreads
    · rw [htaken.stop]
      exact ih hends (hc.trans htaken.reaches) (Reads.refl d) fun g hg => by cases hg

/-- **The tokens of a source cover it.** The mark at its start counts as white space. -/
theorem tokenize_covered {source : Bytes} {tokens : List Token}
    (h : tokenize source = .ok tokens) : Covered source 0 tokens := by
  obtain ⟨us, d, t, hus, hends, rfl⟩ := tokenize_passes h
  obtain ⟨gap, hgap, hblank⟩ := reads_mark source
  exact hus.covered hends (Reaches.refl _) hgap hblank

theorem tokenize_covered_template :
    Covered (utf8 "/*a*/ `$\x7bb\x7d`") 0 [⟨.blockComment, utf8 "a", ⟨1, 0, 0⟩, ⟨1, 5, 5⟩⟩,
      ⟨.punct .backQuote, [], ⟨1, 6, 6⟩, ⟨1, 7, 7⟩⟩, ⟨.template, [], ⟨1, 7, 7⟩, ⟨1, 7, 7⟩⟩,
      ⟨.punct .dollarBraceL, [], ⟨1, 7, 7⟩, ⟨1, 9, 9⟩⟩, ⟨.name, utf8 "b", ⟨1, 9, 9⟩, ⟨1, 10, 10⟩⟩,
      ⟨.punct .braceR, [], ⟨1, 10, 10⟩, ⟨1, 11, 11⟩⟩, ⟨.template, [], ⟨1, 11, 11⟩, ⟨1, 11, 11⟩⟩,
      ⟨.punct .backQuote, [], ⟨1, 11, 11⟩, ⟨1, 12, 12⟩⟩, ⟨.eof, [], ⟨1, 12, 12⟩, ⟨1, 12, 12⟩⟩] :=
  tokenize_covered (by decide +kernel)

end Scanner

end ScriptTidy
