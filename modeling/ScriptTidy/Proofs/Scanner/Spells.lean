import ScriptTidy.Proofs.Scanner.Lexed
import ScriptTidy.Proofs.Scanner.Spelling

/-!
# Texts that scan as given tokens

`Spells` is a grammar of texts: it says in which situation a text stands for which tokens and
comments, with blanks between them. The grammar only has the white space that formatting writes,
and it is the interface between the two: nothing in this file is about layout, and proofs about
layout need nothing else about scanning.

* `Spells.scans` : the scanner is complete for the grammar. On such a text a run succeeds and
  gives exactly these tokens.
* `tokenize_of_spells`, `tokenize_of_hashbang` : the same for whole sources.
-/

namespace ScriptTidy

/-- The kind and the value of a token, which are all of it but its place. -/
def Token.content (t : Token) : Kind × Bytes := (t.kind, t.value)

namespace Scanner

open Cursor

/-- The bytes that formatting puts between tokens. -/
def isBlankByte (b : UInt8) : Bool := b == 0x20 || b == 0x09 || b == 0x0A

theorem isBlankByte_cases {b : UInt8} (hb : isBlankByte b = true) :
    b = 0x20 ∨ b = 0x09 ∨ b = 0x0A := by
  simpa only [isBlankByte, Bool.or_eq_true, beq_iff_eq, or_assoc] using hb

theorem ascii_of_isBlankByte {b : UInt8} (hb : isBlankByte b = true) : b < 0x80 := by
  rcases isBlankByte_cases hb with rfl | rfl | rfl <;> decide

/-- In the situation `s`, behind a token of kind `prev`, the text stands for the tokens and
comments of these kinds and values; `newline` tells whether a line has ended since that token. -/
inductive Spells : Situation → (prev : Kind) → (newline : Bool) → List (Kind × Bytes) → Bytes → Prop
  | blank {s prev newline items b code} (hs : s.innermost ≠ .template) (hb : isBlankByte b = true)
    (h : Spells s prev (newline || b == 0x0A) items code) :
    Spells s prev newline items (b :: code)
  | lineComment {s prev newline items v code} (hs : s.innermost ≠ .template)
    (hv : holdsLineEnd v = false) (h : Spells s prev newline items (0x0A :: code)) :
    Spells s prev newline ((.lineComment, v) :: items) (utf8 "//" ++ v ++ 0x0A :: code)
  | blockComment {s prev newline items v code} (hs : s.innermost ≠ .template)
    (hv : ¬ HoldsCommentEnd v) (h : Spells s prev (newline || holdsLineEnd v) items code) :
    Spells s prev newline ((.blockComment, v) :: items) (utf8 "/*" ++ v ++ utf8 "*/" ++ code)
  | chunk {s prev newline items v p code} (hs : s.innermost = .template) (hprev : prev ≠ .template)
    (hv : Chunk v p)
    (h : Spells ({ s with exprAllowed := false, newlineBefore := false }.after (.punct p)
      .template []) (.punct p) false items code) :
    Spells s prev newline ((.template, v) :: (.punct p, []) :: items) (v ++ utf8 p.label ++ code)
  | token {s prev newline items kind v text code} (hs : s.innermost ≠ .template)
    (hkind : kind ≠ .eof) (hv : ReadsAs s.exprAllowed kind v text code)
    (h : Spells ({ s with newlineBefore := newline }.after kind prev v) kind false items code) :
    Spells s prev newline ((kind, v) :: items) (text ++ code)
  | eof {s prev newline} (hs : s.innermost ≠ .template) : Spells s prev newline [(.eof, [])] []

variable {s : Situation} {prev : Kind} {newline : Bool} {items : List (Kind × Bytes)} {code : Bytes}

theorem spells_blank_append {blank : Bytes} (hs : s.innermost ≠ .template)
    (hblank : ∀ b ∈ blank, isBlankByte b = true)
    (h : Spells s prev (newline || decide (0x0A ∈ blank)) items code) :
    Spells s prev newline items (blank ++ code) := by
  induction blank generalizing newline with
  | nil => simpa using h
  | cons b blank ih =>
    refine .blank hs (hblank b List.mem_cons_self)
      (ih (fun x hx => hblank x (List.mem_cons_of_mem b hx)) ?_)
    have hflag : (newline || b == 0x0A || decide (0x0A ∈ blank)) =
        (newline || decide (0x0A ∈ b :: blank)) := by
      rw [Bool.or_assoc, Bool.eq_iff_iff]
      simp only [Bool.or_eq_true, beq_iff_eq, decide_eq_true_eq, List.mem_cons, eq_comm (a := b)]
    rw [hflag]
    exact h

/-! ## Situations -/

/-- The two situations can only be told apart by the line ends before the last token, which are
looked at once. -/
structure SameScope (s s' : Situation) : Prop where
  opened : s.opened = s'.opened
  exprAllowed : s.exprAllowed = s'.exprAllowed

theorem SameScope.innermost {s' : Situation} (h : SameScope s s') :
    s.innermost = s'.innermost := by
  unfold Situation.innermost
  rw [h.opened]

theorem SameScope.newlineBefore {s' : Situation} (h : SameScope s s') (b : Bool) :
    { s with newlineBefore := b } = { s' with newlineBefore := b } := by
  obtain ⟨opened, expr, newline⟩ := s
  obtain ⟨opened', expr', newline'⟩ := s'
  obtain ⟨ho, he⟩ := h
  cases ho
  cases he
  rfl

/-- What a text spells does not depend on line ends before the last token. -/
theorem Spells.congr {s' : Situation} (h : Spells s prev newline items code)
    (hs : SameScope s s') : Spells s' prev newline items code := by
  induction h generalizing s' with
  | blank hi hb _ ih => exact .blank (hs.innermost ▸ hi) hb (ih hs)
  | lineComment hi hv _ ih => exact .lineComment (hs.innermost ▸ hi) hv (ih hs)
  | blockComment hi hv _ ih => exact .blockComment (hs.innermost ▸ hi) hv (ih hs)
  | @chunk s _ _ _ _ _ _ hi hp hv h _ =>
    refine .chunk (hs.innermost ▸ hi) hp hv ?_
    rw [← hs.opened]
    exact h
  | token hi hk hv h _ =>
    refine .token (hs.innermost ▸ hi) hk (hs.exprAllowed ▸ hv) ?_
    rw [← hs.newlineBefore]
    exact h
  | eof hi => exact .eof (hs.innermost ▸ hi)

/-- Whether a line end before a token of kind `kind` that follows one of kind `prev` decides how
it is taken. -/
def newlineDecides (kind prev : Kind) : Bool :=
  (kind = .punct .braceL || kind = .keyword .functionKw || kind = .keyword .classKw)
    && (prev = .keyword .returnKw || prev = .name)

/-- **Only few tokens are taken differently at the start of a line.** -/
theorem sameScope_after {kind : Kind} {value : Bytes} (b b' : Bool)
    (h : newlineDecides kind prev = true → b = b') :
    SameScope ({ s with newlineBefore := b }.after kind prev value)
      ({ s with newlineBefore := b' }.after kind prev value) := by
  by_cases hb : b = b'
  · subst hb
    exact ⟨rfl, rfl⟩
  have hnot : newlineDecides kind prev = false := by
    rw [← Bool.not_eq_true]
    exact fun hd => hb (h hd)
  -- all tokens but braces and functions leave the same scope whatever the flag was
  unfold newlineDecides at hnot
  unfold Situation.after
  split
  · exact ⟨rfl, rfl⟩
  · split
    case h_1 | h_2 =>
      unfold Situation.closing
      dsimp only
      split
      · exact ⟨rfl, rfl⟩
      · split
        · exact ⟨rfl, rfl⟩
        · exact ⟨rfl, rfl⟩
      · exact ⟨rfl, rfl⟩
    case h_3 =>
      have hprev : ¬ (prev = .keyword .returnKw ∨ prev = .name) := by simpa using hnot
      rw [not_or] at hprev
      have hblock : ({ s with newlineBefore := b } : Situation).braceIsBlock prev =
          ({ s with newlineBefore := b' } : Situation).braceIsBlock prev := by
        unfold Situation.braceIsBlock
        simp only [hprev.1, hprev.2]
        rfl
      rw [hblock]
      exact ⟨rfl, rfl⟩
    case h_8 | h_9 =>
      have hprev : prev ≠ .keyword .returnKw := fun he => by simp [he] at hnot
      have hexpr : ({ s with newlineBefore := b } : Situation).functionIsExpr prev =
          ({ s with newlineBefore := b' } : Situation).functionIsExpr prev := by
        unfold Situation.functionIsExpr
        rw [beq_eq_false_iff_ne.mpr hprev]
        rfl
      rw [hexpr]
      exact ⟨rfl, rfl⟩
    case h_10 =>
      show SameScope (if s.innermost = .template then _ else _)
        (if s.innermost = .template then _ else _)
      split
      · exact ⟨rfl, rfl⟩
      · exact ⟨rfl, rfl⟩
    all_goals exact ⟨rfl, rfl⟩

variable {c d : Cursor}

/-! ## Trivia -/

theorem readTrivia_here (h : TriviaEnds c) : readTrivia newline c = ⟨[], newline, .ok c⟩ := by
  rw [readTrivia_eq]
  cases hn : c.next? with
  | none => rfl
  | some r =>
    obtain ⟨ch, d⟩ := r
    obtain ⟨hpeek, hsecond⟩ := peek?_of_next? hn
    dsimp only
    rw [if_neg (by rw [h.lineEnd ch hpeek]; exact Bool.false_ne_true),
      if_neg (by rw [h.space ch hpeek]; exact Bool.false_ne_true)]
    split
    next hslash =>
      subst hslash
      obtain ⟨hstar, hslashes⟩ := h.comment hpeek
      rw [if_neg (by rw [← hsecond]; exact hstar), if_neg (by rw [← hsecond]; exact hslashes)]
    next => rfl

theorem readTrivia_blank {b : UInt8} {gs : List Glyph} (hb : isBlankByte b = true)
    (hc : c.rest = ⟨Char.ofNat b.toNat, [b]⟩ :: gs) :
    readTrivia newline c = readTrivia (newline || b == 0x0A) c.advance := by
  rw [readTrivia_eq, next?_of_cons hc]
  dsimp only
  rcases isBlankByte_cases hb with rfl | rfl | rfl
  · rw [if_neg (by decide), if_pos (by decide), show ((0x20 : UInt8) == 0x0A) = false from rfl,
      Bool.or_false]
  · rw [if_neg (by decide), if_pos (by decide), show ((0x09 : UInt8) == 0x0A) = false from rfl,
      Bool.or_false]
  · rw [if_pos (by decide), show ((0x0A : UInt8) == 0x0A) = true from rfl, Bool.or_true]

/-- The text between two cursors, when what stands behind each is known. -/
theorem textTo_of_rest {v code : Bytes} (hreach : c.Reaches d)
    (hc : c.rest = Utf8.glyphs v ++ Utf8.glyphs code) (hd : d.rest = Utf8.glyphs code)
    (hdec : Utf8.IsDecoding c.rest) : c.textTo d = v := by
  obtain ⟨gs, hgs⟩ := hreach
  rw [hgs.textTo_eq hdec, Reads.eq_of_rest hgs hc hd, Utf8.bytes_glyphs]

/-- A comment up to the end of the line, behind two characters that are known. -/
theorem readLineComment_complete (kind : Kind) {a b : Char} {v code : Bytes}
    (ha : isLineTerminator a = false) (hb : isLineTerminator b = false)
    (hv : holdsLineEnd v = false)
    (hc : c.rest = charGlyphs [a, b] ++ Utf8.glyphs (v ++ 0x0A :: code)) :
    (readLineComment kind c).1.content = (kind, v)
      ∧ (readLineComment kind c).2.rest = Utf8.glyphs (0x0A :: code) := by
  have hfresh : Utf8.Fresh ((0x0A : UInt8) :: code) := Utf8.fresh_cons (by decide)
  have hline : (Utf8.glyphs (0x0A :: code)).dropWhile (fun g => !isLineTerminator g.char) =
      Utf8.glyphs (0x0A :: code) := by
    rw [Utf8.glyphs_ascii_cons (by decide)]
    exact List.dropWhile_cons_of_neg (by decide)
  have hvalue : ∀ g ∈ Utf8.glyphs v, (!isLineTerminator g.char) = true := by
    have hany := hv
    rw [holdsLineEnd, Utf8.chars, List.any_map, List.any_eq_false] at hany
    intro g hg
    simpa using hany g hg
  have htwo : (c.advanceBy 2).rest = Utf8.glyphs v ++ Utf8.glyphs (0x0A :: code) := by
    rw [advanceBy_rest, hc, Utf8.glyphs_append v hfresh]
    rfl
  have hstop : ∀ x : Cursor, x.rest = Utf8.glyphs v ++ Utf8.glyphs (0x0A :: code) →
      (x.skipWhile fun ch => !isLineTerminator ch).rest = Utf8.glyphs (0x0A :: code) := by
    intro x hx
    rw [skipWhile_rest, hx, List.dropWhile_append_of_pos hvalue, hline]
  have hskip := skipLine_advanceBy_two (peek?_of_cons hc) (peekSecond?_of_cons hc) ha hb
  have hrest : (readLineComment kind c).2.rest = Utf8.glyphs (0x0A :: code) := by
    show (c.skipWhile _).rest = _
    rw [hskip]
    exact hstop _ htwo
  refine ⟨?_, hrest⟩
  show (kind, (c.advanceBy 2).textTo (c.skipWhile _)) = _
  rw [hskip, textTo_of_rest (reaches_skipWhile _ _) htwo (hstop _ htwo)]
  rw [htwo, ← Utf8.glyphs_append v hfresh]
  exact Utf8.isDecoding_glyphs _

theorem readTrivia_lineComment {v code : Bytes} (hv : holdsLineEnd v = false)
    (hc : c.rest = Utf8.glyphs (utf8 "//" ++ v ++ 0x0A :: code)) :
    ∃ t d, t.content = (.lineComment, v) ∧ d.rest = Utf8.glyphs (0x0A :: code)
      ∧ readTrivia newline c = (readTrivia newline d).withComment t
      ∧ c.Reaches d ∧ t.start = c.position ∧ t.stop = d.position := by
  rw [List.append_assoc, glyphs_utf8_append (by decide),
    show "//".toList = ['/', '/'] from rfl] at hc
  obtain ⟨hvalue, hrest⟩ := readLineComment_complete .lineComment (by decide) (by decide)
    hv hc
  refine ⟨_, _, hvalue, hrest, ?_, readLineComment_reaches _ c, rfl, rfl⟩
  have hsecond := peekSecond?_of_cons hc
  rw [(peek?_of_next? (next?_of_cons hc)).2] at hsecond
  rw [readTrivia_eq, next?_of_cons hc]
  dsimp only
  rw [if_neg (by decide), if_neg (by decide), if_pos rfl, if_neg (by rw [hsecond]; decide),
    if_pos hsecond]

theorem readTrivia_blockComment {v code : Bytes} (hv : ¬ HoldsCommentEnd v)
    (hc : c.rest = Utf8.glyphs (utf8 "/*" ++ v ++ utf8 "*/" ++ code)) :
    ∃ t d, t.content = (.blockComment, v) ∧ d.rest = Utf8.glyphs code
      ∧ readTrivia newline c = (readTrivia (newline || holdsLineEnd v) d).withComment t
      ∧ c.Reaches d ∧ t.start = c.position ∧ t.stop = d.position := by
  have hfresh : Utf8.Fresh (utf8 "*/" ++ code) := Utf8.fresh_cons (by decide)
  have hsplit : Utf8.glyphs (v ++ (utf8 "*/" ++ code)) =
      Utf8.glyphs v ++ (charGlyphs ['*', '/'] ++ Utf8.glyphs code) := by
    rw [Utf8.glyphs_append v hfresh, glyphs_utf8_append (by decide)]
    rfl
  rw [List.append_assoc, List.append_assoc, glyphs_utf8_append (by decide),
    show "/*".toList = ['/', '*'] from rfl] at hc
  have htwo : (c.advanceBy 2).rest = Utf8.glyphs (v ++ (utf8 "*/" ++ code)) := by
    rw [advanceBy_rest, hc]
    rfl
  -- the end of the comment is found behind its value, which holds none
  have hend : findCommentEnd newline (c.advanceBy 2) = some ((c.advanceBy 2).advanceBy
      (Utf8.glyphs v).length, newline || holdsLineEnd v) := by
    rw [findCommentEnd_complete newline (htwo.trans hsplit) rfl rfl
      (fun h => hv (holdsCommentEnd_iff.mpr h)), holdsLineEnd, Utf8.chars, List.any_map]
    rfl
  generalize hclose : (c.advanceBy 2).advanceBy (Utf8.glyphs v).length = close at hend
  have hreach : (c.advanceBy 2).Reaches close := hclose ▸ reaches_advanceBy _ _
  have hrest : close.rest = Utf8.glyphs (utf8 "*/" ++ code) := by
    rw [← hclose, advanceBy_rest, htwo, hsplit, List.drop_left, glyphs_utf8_append (by decide)]
    rfl
  refine ⟨commentToken .blockComment c (c.advanceBy 2) close (close.advanceBy 2),
    close.advanceBy 2, ?_, ?_, ?_,
    ((reaches_advanceBy 2 c).trans hreach).trans (reaches_advanceBy 2 close), rfl, rfl⟩
  · show (Kind.blockComment, (c.advanceBy 2).textTo close) = _
    rw [textTo_of_rest hreach (htwo.trans (Utf8.glyphs_append v hfresh)) hrest
      (htwo ▸ Utf8.isDecoding_glyphs _)]
  · rw [advanceBy_rest, hrest, glyphs_utf8_append (by decide)]
    rfl
  · have hsecond := peekSecond?_of_cons hc
    rw [(peek?_of_next? (next?_of_cons hc)).2] at hsecond
    rw [readTrivia_eq, next?_of_cons hc]
    dsimp only
    rw [if_neg (by decide), if_neg (by decide), if_pos rfl, if_pos hsecond, hend]

/-! ## Runs -/

/-- The rest of a run that has read the trivia `t` in front of its next token. -/
def resume (fuel : Nat) (s : Scanner) (t : Trivia) : Except LexError (List Token) :=
  match t.outcome with
  | .error e => .error e
  | .ok c =>
    match readToken s.situation.exprAllowed c with
    | .error e => .error e
    | .ok (u, d) =>
      if u.kind = .eof then .ok (t.comments ++ [u])
      else (collect fuel (s.behind t.newline u d)).map (t.comments ++ u :: ·)

theorem collect_succ_eq_resume {s : Scanner} (hf : s.failure = none) (hstart : s.atStart = false)
    (hs : s.situation.innermost ≠ .template) (fuel : Nat) :
    collect (fuel + 1) s = resume fuel s (readTrivia false s.cursor) := by
  rw [collect, resume, next_of_ordinary hf hstart hs]
  cases (readTrivia false s.cursor).outcome with
  | error e => rfl
  | ok c =>
    dsimp only
    cases readToken s.situation.exprAllowed c with
    | error e => rfl
    | ok r =>
      rw [finish_ok]
      dsimp only
      split
      · rfl
      · cases collect fuel (s.behind (readTrivia false s.cursor).newline r.1 r.2) with
        | error e => rfl
        | ok ts => rfl

theorem resume_withComment (fuel : Nat) (s : Scanner) (comment : Token) (t : Trivia) :
    resume fuel s (t.withComment comment) = (resume fuel s t).map (comment :: ·) := by
  unfold resume
  dsimp only [Trivia.withComment]
  cases t.outcome with
  | error e => rfl
  | ok c =>
    dsimp only
    cases readToken s.situation.exprAllowed c with
    | error e => rfl
    | ok r =>
      dsimp only
      split
      · rfl
      · cases collect fuel (s.behind t.newline r.1 r.2) with
        | error e => rfl
        | ok ts => rfl

/-- A run in the situation `s` goes on with the given contents if the rest of the source is
`code`, whatever stood before it; `newline` is what it has seen of the trivia it is in. -/
def Scans (s : Situation) (prev : Kind) (newline : Bool) (items : List (Kind × Bytes))
    (code : Bytes) : Prop :=
  ∀ (fuel : Nat) (c : Cursor), 2 * code.length ≤ fuel → c.rest = Utf8.glyphs code →
    ∃ ts : List Token, ts.map Token.content = items
      ∧ (if s.innermost = .template then collect (fuel + 1) ⟨c, prev, s, false, none⟩
        else resume fuel ⟨c, prev, s, false, none⟩ (readTrivia newline c)) = .ok ts

theorem scans_iff_resume (hs : s.innermost ≠ .template) : Scans s prev newline items code ↔
    ∀ (fuel : Nat) (c : Cursor), 2 * code.length ≤ fuel → c.rest = Utf8.glyphs code →
      ∃ ts : List Token, ts.map Token.content = items
        ∧ resume fuel ⟨c, prev, s, false, none⟩ (readTrivia newline c) = .ok ts := by
  unfold Scans
  simp only [hs, if_false]

theorem Scans.collect (h : Scans s prev false items code) (fuel : Nat)
    (hfuel : 2 * code.length + 1 ≤ fuel) (hc : c.rest = Utf8.glyphs code) :
    ∃ ts : List Token, ts.map Token.content = items
      ∧ Scanner.collect fuel ⟨c, prev, s, false, none⟩ = .ok ts := by
  obtain ⟨n, rfl⟩ : ∃ n, fuel = n + 1 := ⟨fuel - 1, by omega⟩
  obtain ⟨ts, hitems, hts⟩ := h n c (by omega) hc
  refine ⟨ts, hitems, ?_⟩
  split at hts
  next => exact hts
  next hs =>
    rw [collect_succ_eq_resume rfl rfl (by exact hs)]
    exact hts

/-- A comment is put in front of what follows it. -/
theorem scans_comment {comment : Bytes} {newline' : Bool} {item : Kind × Bytes}
    (hs : s.innermost ≠ .template) (h : Scans s prev newline' items code)
    (hlen : code.length ≤ comment.length)
    (hread : ∀ c : Cursor, c.rest = Utf8.glyphs comment → ∃ t d, t.content = item
      ∧ d.rest = Utf8.glyphs code
      ∧ readTrivia newline c = (readTrivia newline' d).withComment t
      ∧ c.Reaches d ∧ t.start = c.position ∧ t.stop = d.position) :
    Scans s prev newline (item :: items) comment := by
  rw [scans_iff_resume hs] at h ⊢
  intro fuel c hfuel hc
  obtain ⟨t, d, rfl, hd, htrivia, _⟩ := hread c hc
  obtain ⟨ts, rfl, hts⟩ := h fuel d (by omega) hd
  refine ⟨t :: ts, rfl, ?_⟩
  -- what is behind the trivia does not depend on where the trivia started
  have hsame : resume fuel ⟨c, prev, s, false, none⟩ (readTrivia newline' d) = .ok ts := hts
  rw [htrivia, resume_withComment, hsame]
  rfl

/-- A text that is read as a token is one step of a run, and the situation behind it is known. -/
theorem resume_of_readsAs {kind : Kind} {v text : Bytes} (hkind : kind ≠ .eof)
    (hv : ReadsAs s.exprAllowed kind v text code) (hc : c.rest = Utf8.glyphs (text ++ code))
    (prev : Kind) (newline : Bool) (fuel : Nat) :
    ∃ t d, t.content = (kind, v) ∧ d.rest = Utf8.glyphs code
      ∧ resume fuel ⟨c, prev, s, false, none⟩ (readTrivia newline c) =
        (collect fuel ⟨d, kind, { s with newlineBefore := newline }.after kind prev v, false,
          none⟩).map (t :: ·) := by
  obtain ⟨-, hread⟩ := hv
  obtain ⟨hends, t, d, ht, rfl, rfl, hd⟩ := hread c hc
  refine ⟨t, d, rfl, hd, ?_⟩
  rw [readTrivia_here hends, resume]
  dsimp only
  rw [ht]
  dsimp only
  rw [if_neg hkind]
  rfl

theorem collect_of_readsAs {kind : Kind} {v text : Bytes} (hs : s.innermost ≠ .template)
    (hkind : kind ≠ .eof) (hv : ReadsAs s.exprAllowed kind v text code)
    (hc : c.rest = Utf8.glyphs (text ++ code)) (prev : Kind) (fuel : Nat) :
    ∃ t d, t.content = (kind, v) ∧ d.rest = Utf8.glyphs code
      ∧ collect (fuel + 1) ⟨c, prev, s, false, none⟩ =
        (collect fuel ⟨d, kind, { s with newlineBefore := false }.after kind prev v, false,
          none⟩).map (t :: ·) := by
  rw [collect_succ_eq_resume rfl rfl hs]
  exact resume_of_readsAs hkind hv hc prev false fuel

theorem scans_token {kind : Kind} {v text : Bytes} (hs : s.innermost ≠ .template)
    (hkind : kind ≠ .eof) (hv : ReadsAs s.exprAllowed kind v text code)
    (h : Scans ({ s with newlineBefore := newline }.after kind prev v) kind false items code) :
    Scans s prev newline ((kind, v) :: items) (text ++ code) := by
  rw [scans_iff_resume hs]
  intro fuel c hfuel hc
  obtain ⟨t, d, hcontent, hd, hresume⟩ := resume_of_readsAs hkind hv hc prev newline fuel
  have hpos := List.length_pos_iff.mpr hv.1
  rw [List.length_append] at hfuel
  obtain ⟨ts, rfl, hts⟩ := h.collect fuel (by omega) hd
  refine ⟨t :: ts, by rw [List.map_cons, hcontent], ?_⟩
  rw [hresume, hts]
  rfl

/-- The delimiter of a chunk is known from its text. -/
theorem delimiter_complete {p : Punctuator} {gs : List Glyph}
    (hp : p = .backQuote ∨ p = .dollarBraceL) (hd : d.rest = charGlyphs p.label.toList ++ gs) :
    chunkEnds d = true ∧ readChunkDelimiter d =
      (bareToken (.punct p) d (d.advanceBy p.label.length), d.advanceBy p.label.length) := by
  unfold chunkEnds readChunkDelimiter
  rcases hp with rfl | rfl
  · rw [show (Punctuator.label .backQuote).toList = ['\x60'] from rfl] at hd
    rw [peek?_of_cons hd, if_neg (by decide)]
    exact ⟨rfl, rfl⟩
  · rw [show (Punctuator.label .dollarBraceL).toList = ['$', '\x7b'] from rfl] at hd
    rw [peek?_of_cons hd, peekSecond?_of_cons hd, if_pos rfl]
    exact ⟨rfl, rfl⟩

/-- Behind the text of a chunk, what delimits it is one step of a run. -/
theorem Scans.delimiter {p : Punctuator} (hs : s.innermost = .template)
    (hp : p = .backQuote ∨ p = .dollarBraceL)
    (h : Scans ({ s with newlineBefore := false }.after (.punct p) .template []) (.punct p) false
      items code)
    {fuel : Nat} (hfuel : 2 * (utf8 p.label ++ code).length ≤ fuel)
    (hd : d.rest = Utf8.glyphs (utf8 p.label ++ code)) :
    ∃ ts : List Token, ts.map Token.content = (.punct p, []) :: items
      ∧ Scanner.collect fuel ⟨d, .template, s, false, none⟩ = .ok ts := by
  have hlabel : d.rest = charGlyphs p.label.toList ++ Utf8.glyphs code :=
    hd.trans (glyphs_utf8_append p.ascii_label code)
  obtain ⟨hends, hdelimiter⟩ := delimiter_complete hp hlabel
  have hpos : 0 < (utf8 p.label).length := by
    rcases hp with rfl | rfl <;> decide
  rw [List.length_append] at hfuel
  obtain ⟨m, rfl⟩ : ∃ m, fuel = m + 1 := ⟨fuel - 1, by omega⟩
  obtain ⟨ts, rfl, hts⟩ := h.collect (c := d.advanceBy p.label.length) m (by omega) (by
    rw [advanceBy_rest, hlabel, p.label_length]
    exact List.drop_left' (by simp [charGlyphs]))
  exact ⟨bareToken (.punct p) d (d.advanceBy p.label.length) :: ts, rfl,
    collect_of_next (next_delimiter rfl hs rfl hends hdelimiter) Kind.noConfusion hts⟩

/-- A chunk and what delimits it are two steps of a run. -/
theorem scans_chunk {v : Bytes} {p : Punctuator} (hs : s.innermost = .template)
    (hprev : prev ≠ .template) (hv : Chunk v p)
    (h : Scans ({ s with exprAllowed := false, newlineBefore := false }.after (.punct p)
      .template []) (.punct p) false items code) :
    Scans s prev newline ((.template, v) :: (.punct p, []) :: items)
      (v ++ utf8 p.label ++ code) := by
  intro fuel c hfuel hc
  rw [if_pos hs]
  obtain ⟨⟨c₀, d₀, gs, hread, hgs, hdec, rfl, hhead⟩, hp⟩ := hv
  have hfresh : Utf8.Fresh (utf8 p.label ++ code) := by
    rcases hp with rfl | rfl
    · exact Utf8.fresh_cons (by decide)
    · exact Utf8.fresh_cons (by decide)
  have hlabel : Utf8.glyphs (utf8 p.label ++ code) =
      charGlyphs p.label.toList ++ Utf8.glyphs code :=
    glyphs_utf8_append p.ascii_label code
  have hends : ∀ x : Cursor, x.rest = Utf8.glyphs (utf8 p.label ++ code) → chunkEnds x = true :=
    fun x hx => (delimiter_complete hp (hx.trans hlabel)).1
  rw [List.append_assoc] at hc hfuel
  have hdec' := Utf8.isDecoding_glyphs (gs.flatMap (·.bytes) ++ (utf8 p.label ++ code))
  rw [glyphs_of_reads hdec hfresh] at hc hdec'
  -- the chunk ends at the same delimiter as where it was read first
  obtain ⟨d, hd, hrest⟩ := readChunk_lockstep hread c.position ⟨gs, hgs.rest_eq, hc⟩ hends (by
    rw [hhead, hlabel, p.label_toList]
    rfl)
  obtain ⟨gs', hgs'⟩ := readChunk_reaches hd
  obtain rfl : gs = gs' := (Reads.eq_of_rest hgs' hc hrest).symm
  have hvalue : c.textTo d = gs.flatMap (·.bytes) := hgs'.textTo_eq (hc ▸ hdec')
  have hbehind : 2 * (utf8 p.label ++ code).length ≤ fuel := by
    rw [List.length_append] at hfuel
    omega
  obtain ⟨ts, hitems, hts⟩ := Scans.delimiter
    (s := { s with exprAllowed := false, newlineBefore := false }) hs hp h hbehind hrest
  refine ⟨rawToken .template c d :: ts, ?_, collect_of_next (next_chunk rfl hs hprev hd)
    Kind.noConfusion hts⟩
  rw [List.map_cons, hitems]
  exact congrArg (fun x => (Kind.template, x) :: _) hvalue

/-- **A text is scanned as what it spells.** -/
theorem Spells.scans (h : Spells s prev newline items code) : Scans s prev newline items code := by
  induction h with
  -- one character of white space uses no fuel, since the next token is the same
  | @blank s prev newline items b code hs hb _ ih =>
    rw [scans_iff_resume hs] at ih ⊢
    intro fuel c hfuel hc
    rw [Utf8.glyphs_ascii_cons (ascii_of_isBlankByte hb)] at hc
    obtain ⟨ts, hitems, hts⟩ := ih fuel c.advance (by rw [List.length_cons] at hfuel; omega) (by
      rw [advance_rest, hc]
      rfl)
    refine ⟨ts, hitems, ?_⟩
    rw [readTrivia_blank hb hc]
    exact hts
  | lineComment hs hv _ ih =>
    exact scans_comment hs ih (by simp; omega) fun c hc => readTrivia_lineComment hv hc
  | blockComment hs hv _ ih =>
    exact scans_comment hs ih (by simp; omega) fun c hc => readTrivia_blockComment hv hc
  | chunk hs hprev hv _ ih => exact scans_chunk hs hprev hv ih
  | token hs hkind hv _ ih => exact scans_token hs hkind hv ih
  | @eof s prev newline hs =>
    rw [scans_iff_resume hs]
    intro fuel c hfuel hc
    rw [Utf8.glyphs_nil] at hc
    refine ⟨[bareToken .eof c c], rfl, ?_⟩
    rw [readTrivia_here (triviaEnds_of_nil hc), resume]
    dsimp only
    rw [readToken_of_nil hc]
    rfl

/-! ## Whole sources -/

/-- Nothing that is read as a token starts like a comment line at the start of a source. -/
theorem readToken_hashbang {exprAllowed : Bool} {r : Token × Cursor}
    (hhash : c.peek? = some '#' ∧ c.peekSecond? = some '!') :
    readToken exprAllowed c ≠ .ok r := by
  have hnumber := startsNumber_eq_false hhash.1 (by decide) (fun h => absurd h (by decide))
  have hnone : c.advance.peek?.any startsName = false := by
    rw [← peekSecond?_eq, hhash.2]
    decide
  rw [readToken_other hhash.1 (by decide) hnumber, if_neg (by decide),
    if_neg (fun hn => absurd hn.1 (by decide)), if_pos rfl]
  unfold readPrivateName
  dsimp only
  rw [hnone, if_neg Bool.false_ne_true]
  rintro ⟨⟩

/-- Neither a byte order mark nor a comment line of the kind for first lines starts here. -/
def StartsPlain (c : Cursor) : Prop :=
  c.peek? ≠ some byteOrderMark ∧ ¬ (c.peek? = some '#' ∧ c.peekSecond? = some '!')

theorem startsPlain_of_peek? {ch : Char} (h : c.peek? = some ch) (hmark : ch ≠ byteOrderMark)
    (hhash : ch ≠ '#') : StartsPlain c := by
  unfold StartsPlain
  rw [h]
  exact ⟨fun he => hmark (Option.some.inj he), fun he => hhash (Option.some.inj he.1)⟩

theorem startsPlain_blank {b : UInt8} (hb : isBlankByte b = true)
    (hc : c.rest = Utf8.glyphs (b :: code)) : StartsPlain c := by
  rw [Utf8.glyphs_ascii_cons (ascii_of_isBlankByte hb)] at hc
  have hpeek := peek?_of_cons hc
  rcases isBlankByte_cases hb with rfl | rfl | rfl
  all_goals exact startsPlain_of_peek? hpeek (by decide) (by decide)

/-- Where nothing else starts, a source is scanned like any text. -/
theorem collect_ofSource (h : StartsPlain (Cursor.ofSource code)) (fuel : Nat) :
    collect fuel (Scanner.ofSource code) =
      collect fuel ⟨Cursor.ofSource code, .eof, {}, false, none⟩ := by
  have hsource : Scanner.ofSource code = { cursor := Cursor.ofSource code } := by
    unfold Scanner.ofSource
    dsimp only
    rw [if_neg h.1]
  rw [hsource, collect_of_not_hashbang rfl h.2]

theorem tokenize_of_startsPlain (h : StartsPlain (Cursor.ofSource code)) :
    tokenize code =
      collect (2 * code.length + 1) ⟨Cursor.ofSource code, .eof, {}, false, none⟩ :=
  collect_ofSource h _

/-- A source that starts with a comment line of that kind is scanned as the comment and what
follows it. -/
theorem tokenize_of_startsHashbang {gs : List Glyph}
    (hc : (Cursor.ofSource code).rest = charGlyphs ['#', '!'] ++ gs) :
    tokenize code = (collect (2 * code.length + 1)
      ⟨(readLineComment .hashbang (Cursor.ofSource code)).2, .eof, {}, false, none⟩).map
        ((readLineComment .hashbang (Cursor.ofSource code)).1 :: ·) := by
  have hpeek : (Cursor.ofSource code).peek? = some '#' := peek?_of_cons hc
  have hsource : Scanner.ofSource code = { cursor := Cursor.ofSource code } := by
    unfold Scanner.ofSource
    dsimp only
    rw [hpeek, if_neg (by decide)]
  unfold tokenize
  rw [hsource, collect_of_hashbang (s := { cursor := Cursor.ofSource code }) rfl rfl
    (show Context.block ≠ .template by decide) ⟨hpeek, peekSecond?_of_cons hc⟩]

/-- A text that spells something in ordinary code starts neither with a byte order mark nor with
a comment line of its own kind. -/
theorem Spells.start (h : Spells s prev newline items code) (hs : s.innermost ≠ .template)
    (hc : c.rest = Utf8.glyphs code) : StartsPlain c := by
  cases h with
  | blank _ hb _ => exact startsPlain_blank hb hc
  | lineComment _ _ _ =>
    rw [List.append_assoc, glyphs_utf8_append (by decide)] at hc
    exact startsPlain_of_peek? (peek?_of_cons hc) (by decide) (by decide)
  | blockComment _ _ _ =>
    rw [List.append_assoc, List.append_assoc, glyphs_utf8_append (by decide)] at hc
    exact startsPlain_of_peek? (peek?_of_cons hc) (by decide) (by decide)
  | chunk htemplate => exact absurd htemplate hs
  | token _ _ hv _ =>
    obtain ⟨hends, t, d, ht, _⟩ := hv.2 c hc
    refine ⟨fun hmark => ?_, fun hhash => readToken_hashbang hhash ht⟩
    exact absurd (hends.space _ hmark) (by decide)
  | eof _ =>
    have hpeek : c.peek? = none := by
      rw [peek?_eq_head?, hc, Utf8.glyphs_nil]
      rfl
    unfold StartsPlain
    rw [hpeek]
    exact ⟨fun he => (by cases he), fun he => (by cases he.1)⟩

/-- **A source is accepted as what it spells.** -/
theorem tokenize_of_spells (h : Spells {} .eof false items code) :
    ∃ ts, ts.map Token.content = items ∧ tokenize code = .ok ts := by
  have hstart : StartsPlain (Cursor.ofSource code) :=
    h.start (show Context.block ≠ .template by decide) rfl
  rw [tokenize_of_startsPlain hstart]
  exact h.scans.collect _ (Nat.le_refl _) rfl

/-- A source may start with a comment line of its own kind. -/
theorem tokenize_of_hashbang {v : Bytes} (hv : holdsLineEnd v = false)
    (h : Spells {} .eof false items (0x0A :: code)) :
    ∃ ts, ts.map Token.content = (.hashbang, v) :: items
      ∧ tokenize (utf8 "#!" ++ v ++ 0x0A :: code) = .ok ts := by
  generalize hsource : utf8 "#!" ++ v ++ 0x0A :: code = source
  have hc : (Cursor.ofSource source).rest =
      charGlyphs ['#', '!'] ++ Utf8.glyphs (v ++ 0x0A :: code) := by
    show Utf8.glyphs source = _
    rw [← hsource, List.append_assoc, glyphs_utf8_append (by decide)]
    rfl
  obtain ⟨hvalue, hrest⟩ := readLineComment_complete .hashbang (by decide) (by decide)
    hv hc
  have hlen : (0x0A :: code).length ≤ source.length := by
    rw [← hsource, List.length_append]
    exact Nat.le_add_left _ _
  obtain ⟨ts, rfl, hts⟩ := h.scans.collect (2 * source.length + 1) (by omega) hrest
  refine ⟨(readLineComment .hashbang (Cursor.ofSource source)).1 :: ts, ?_, ?_⟩
  · rw [List.map_cons, hvalue]
  · rw [tokenize_of_startsHashbang hc, hts]
    rfl

end Scanner

end ScriptTidy
