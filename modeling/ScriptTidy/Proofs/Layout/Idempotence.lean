import ScriptTidy.Proofs.Layout.Rescan
import ScriptTidy.Proofs.Layout.Settled

/-!
# Formatting twice

What is written for the tokens of a source is scanned again. If that scan finds the same code, it
finds each token and each comment where it was written, which is all that `Settled` needs to know
about the second run. Comments are not asked to be the same: that they are found is a result.

* `readFrom_comment`, `readFrom_token`, `readFrom_chunk` : the steps of the second scan.
* `readBack_emissions` : the run lemma, along the tokens of the source.
* `readBack_format` : the same for whole sources.
* `format_format_iff` : the output is formatted to itself exactly if all comments are settled.
* `code_formatTokens_of_lineComments` : so it is where there are no block comments.
-/

namespace ScriptTidy

open Scanner

/-- The kinds and values of the tokens that are no comments. -/
def codeContents (tokens : List Token) : List (Kind × Bytes) :=
  (tokens.filter (!·.isComment)).map Token.content

theorem codeContents_comment {t : Token} (h : t.isComment = true) (rest : List Token) :
    codeContents (t :: rest) = codeContents rest := by
  rw [codeContents, List.filter_cons_of_neg (by simp [h])]
  rfl

theorem codeContents_token {t : Token} (h : t.isComment = false) (rest : List Token) :
    codeContents (t :: rest) = t.content :: codeContents rest := by
  rw [codeContents, List.filter_cons_of_pos (by simp [h]), List.map_cons]
  rfl

namespace Scanner

variable {situation : Situation} {prev : Kind} {last : Option Token} {seen : Bool}
variable {tokens : List Token}

/-- A stream has an end, which is no comment. -/
theorem Lexed.codeContents_ne_nil (h : Lexed situation prev last seen tokens) :
    codeContents tokens ≠ [] := by
  induction h with
  | comment _ ht _ _ ih =>
    rw [codeContents_comment ht.isComment.1]
    exact ih
  | chunk _ _ _ ht _ _ _ _ _ _ _ =>
    rw [codeContents_token (Token.isComment_of_kind ht)]
    exact List.cons_ne_nil _ _
  | token _ ht _ _ _ =>
    rw [codeContents_token ht.ordinary.1]
    exact List.cons_ne_nil _ _
  | eof _ ht _ _ =>
    rw [codeContents_token (Token.isComment_of_kind ht)]
    exact List.cons_ne_nil _ _

/-- What is scanned with the same code has an end as well. -/
theorem Lexed.ne_nil_of_codeContents_eq (h : Lexed situation prev last seen tokens)
    {tokens' : List Token} (hsame : codeContents tokens' = codeContents tokens) :
    tokens' ≠ [] := by
  rintro rfl
  exact h.codeContents_ne_nil hsame.symm

/-- Block comments do not hold their ends. -/
theorem Lexed.commentsClosed (h : Lexed situation prev last seen tokens) :
    ∀ t ∈ tokens, t.kind = .blockComment → ¬ HoldsCommentEnd t.value := by
  intro t ht hk
  cases h.streamItem ht with
  | comment htext =>
    rcases htext with ⟨hkind, _⟩ | ⟨_, hclosed⟩
    · rw [hkind] at hk
      cases hk
    · exact hclosed
  | chunk hkind | eof hkind | delimiter _ hkind =>
    rw [hkind] at hk
    cases hk
  | lexeme hlexeme =>
    have hcomment := hlexeme.ordinary.1
    rw [hk] at hcomment
    cases hcomment

theorem leavesLine_of_code {a b : Token} (ha : a.isComment = false) : Layout.LeavesLine a b := by
  intro hf
  rw [Token.isComment, isComment_of_fillsLine hf] at ha
  cases ha

/-- Nothing stands on the line of a comment that fills it. -/
theorem Lexed.leavesLine (h : Lexed situation prev last seen tokens) :
    (∀ l ∈ last, ∀ t ∈ tokens.head?, Layout.LeavesLine l t)
      ∧ tokens.IsChain Layout.LeavesLine := by
  have hfollows : ∀ {last : Option Token} {seen newline : Bool} {t : Token},
      Follows last seen t newline → ∀ l ∈ last, ∀ u ∈ some t, Layout.LeavesLine l u := by
    intro last seen newline t hf l hl u hu
    cases hu
    exact hf.lineComment l hl
  induction h with
  | comment _ _ hline _ ih => exact ⟨hfollows hline, List.isChain_cons.mpr ⟨ih.1 _ rfl, ih.2⟩⟩
  | @chunk _ _ l _ t u _ _ _ hprev hl ht _ hu _ _ _ _ ih =>
    have hlc : l.isComment = false := by
      rw [Token.isComment, hl]
      rcases opensChunk_iff.mp hprev with rfl | rfl | rfl <;> rfl
    have htc : t.isComment = false := Token.isComment_of_kind ht
    refine ⟨fun k hk v _ => ?_, List.isChain_cons.mpr ⟨fun v _ => leavesLine_of_code htc,
      List.isChain_cons.mpr ⟨ih.1 _ rfl, ih.2⟩⟩⟩
    cases hk
    exact leavesLine_of_code hlc
  | token _ _ hline _ ih => exact ⟨hfollows hline, List.isChain_cons.mpr ⟨ih.1 _ rfl, ih.2⟩⟩
  | eof _ _ _ hline => exact ⟨hfollows hline, List.isChain_singleton _⟩

theorem LexedSource.commentsClosed {tokens : List Token} (h : LexedSource tokens) :
    ∀ t ∈ tokens, t.kind = .blockComment → ¬ HoldsCommentEnd t.value := by
  cases h with
  | plain hlexed => exact hlexed.commentsClosed
  | @hashbang t rest ht _ hlexed =>
    intro u hu hk
    rcases List.mem_cons.mp hu with rfl | hu
    · rw [ht] at hk
      cases hk
    · exact hlexed.commentsClosed u hu hk

theorem LexedSource.leavesLine {tokens : List Token} (h : LexedSource tokens) :
    tokens.IsChain Layout.LeavesLine := by
  cases h with
  | plain hlexed => exact hlexed.leavesLine.2
  | hashbang _ _ hlexed =>
    obtain ⟨hfirst, hchain⟩ := hlexed.leavesLine
    exact List.isChain_cons.mpr ⟨hfirst _ rfl, hchain⟩

/-- A run that gives this code reads the first of it where its trivia ends. -/
theorem Runs.token_of_codeContents {fuel : Nat} {newline : Bool} {c : Cursor} {ts : List Token}
    {content : Kind × Bytes} {items : List (Kind × Bytes)}
    (hrun : Runs fuel situation prev newline c ts) (hs : situation.innermost ≠ .template)
    (hends : TriviaEnds c) (hdec : Utf8.IsDecoding c.rest) (hne : content.1 ≠ .eof)
    (hsame : codeContents ts = content :: items) :
    ∃ u d ts', ts = u :: ts' ∧ readToken situation.exprAllowed c = .ok (u, d)
      ∧ u.content = content ∧ codeContents ts' = items
      ∧ collect fuel ⟨d, content.1, { situation with newlineBefore := newline }.after content.1
        prev content.2, false, none⟩ = .ok ts' := by
  obtain ⟨u, d, hread, hcases⟩ := hrun.token hs hends
  have hcomment : u.isComment = false := by
    rcases (readToken_sound hdec hends.comment hread).lexeme with ⟨hk, _⟩ | ⟨_, hlexeme, _⟩
    · exact Token.isComment_of_kind hk
    · exact hlexeme.ordinary.1
  have hfirst : ∀ ts', codeContents (u :: ts') = content :: items →
      u.content = content ∧ codeContents ts' = items := by
    intro ts' h
    rw [codeContents_token hcomment] at h
    exact List.cons.inj h
  rcases hcases with ⟨hk, rfl⟩ | ⟨_, ts', rfl, hcollect⟩
  · obtain ⟨rfl, _⟩ := hfirst [] hsame
    exact absurd hk hne
  · obtain ⟨rfl, hitems⟩ := hfirst ts' hsame
    exact ⟨u, d, ts', rfl, hread, rfl, hitems, hcollect⟩

end Scanner

namespace Layout

variable {indent : Bytes} {s : LayoutState} {l t : Token} {next : Option Token} {pending : Bytes}
variable {seen newline : Bool}

/-! ## What stands behind a text -/

theorem fresh_blank_append {blank code : Bytes} (hblank : ∀ b ∈ blank, isBlankByte b = true)
    (h : Utf8.Fresh code) : Utf8.Fresh (blank ++ code) := by
  cases blank with
  | nil => exact h
  | cons b blank =>
    have hascii := ascii_of_isBlankByte (hblank b List.mem_cons_self)
    exact Utf8.fresh_cons (Utf8.isTail_of_ascii hascii)

/-- The first of two tokens that glue is a number, a regular expression or a punctuator, and the
second is a token of its own. -/
theorem kinds_of_glues {u : Token} (h : l.Glues u) :
    (∃ p, l.kind = .punct p ∧ p.firstChar ≠ '/')
      ∨ (l.kind = .num ∨ l.kind = .regexp) ∧ u.kind.isComment = false ∧ u.kind ≠ .eof
        ∧ u.kind ≠ .template := by
  obtain ⟨kind, value, start, stop⟩ := l
  obtain ⟨kind', value', start', stop'⟩ := u
  rcases h with h | ⟨h, hflags, _⟩ | ⟨h, _⟩
  · dsimp only at h ⊢
    unfold Kind.glued at h
    split at h
    case h_5 => exact Or.inr ⟨Or.inl rfl, by decide⟩
    case h_8 => cases h
    all_goals exact Or.inl ⟨_, rfl, by decide⟩
  · dsimp only at h hflags ⊢
    refine Or.inr ⟨Or.inr h, ?_⟩
    cases kind' with
    | name => decide
    | num => decide
    | keyword k => exact ⟨rfl, Kind.noConfusion, Kind.noConfusion⟩
    | _ => cases hflags
  · exact Or.inl ⟨_, h, by decide⟩

/-- **The end of a token can be told from its kind and value** in the output. -/
theorem bounded_next {exprAllowed : Bool} {situation : Situation} {rest : List Token}
    (hindent : IsBlank indent) (h : Lexed situation l.kind (some l) false rest)
    (hb : Behind indent (some l) rest.head? s pending) (hl : Lexeme exprAllowed l.kind l.value) :
    Bounded l.kind (pending ++ (emissionsFrom indent s rest).flatMap Emission.bytes) := by
  -- a pair that glues is bounded by the kind of its first, any other by what stands between
  by_cases hglue : ∃ u ∈ rest.head?, l.Glues u
  · obtain ⟨u, hu, hglue⟩ := hglue
    rcases kinds_of_glues hglue with hp | ⟨hkind, hcomment, heof, htemplate⟩
    · exact Or.inr (Or.inr hp)
    · refine Or.inr (Or.inl ⟨hkind, fresh_blank_append hb.blank ?_⟩)
      -- only tokens of ordinary code glue
      cases h with
      | comment _ ht =>
        cases hu
        rw [show u.kind.isComment = true from ht.isComment.1] at hcomment
        cases hcomment
      | chunk _ _ _ ht =>
        cases hu
        exact absurd ht htemplate
      | @token _ _ _ _ v rest _ _ ht _ _ =>
        rw [bytes_emissionsFrom_cons, step_plain ht.ordinary.1 ht.ordinary.2.1]
        refine fresh_blank_append (isBlankByte_flatten hindent isPiece_gapBefore) ?_
        have htext : (plain indent s v (effectiveKind s v) rest.head?).1.text = v.text :=
          text_effectiveKind s (value_ne_nil_of_isKeyword ht)
        obtain ⟨g, r, hg, hstarts⟩ := text_startsAs ht
          ((plain indent s v (effectiveKind s v) rest.head?).1.after.flatten ++
            (emissionsFrom indent (plain indent s v (effectiveKind s v) rest.head?).2
              rest).flatMap Emission.bytes)
        rw [htext]
        exact Utf8.fresh_of_glyphs hg hstarts.ne_replacementChar
      | eof _ ht =>
        cases hu
        exact absurd ht heof
  · exact Or.inl (separated_next hindent h hb hl fun u hu hg => hglue ⟨u, hu, hg⟩)

/-! ## Steps -/

/-- The white space before a comment that has a line of its own ends with the indentation of that
line. -/
theorem column_commentGap {c d : Cursor} {last : Option Token} (hindent : IsBlank indent)
    (hb : Behind indent last (some t) s pending) (ht : t.isComment = true)
    (hkind : t.kind ≠ .hashbang) (hends : lastEndsOn s t.start.line = false)
    (hleaves : ∀ l ∈ last, fillsLine l.kind = true → l.stop.line < t.start.line)
    (hcolumn : last = none → c.column = 0)
    (h : SkipsTo c (pending ++ (commentGap indent s t).flatten) d) :
    d.column = (indentation indent s.level).length := by
  have hindentation := (hindent.indentation s.level).newline_not_mem
  have hgap : pending ++ (commentGap indent s t).flatten =
      pending ++ (separator s t).flatten ++ indentation indent s.level := by
    rw [commentGap, if_neg hkind, hends, if_neg Bool.false_ne_true, List.flatten_append,
      List.flatten_singleton, List.append_assoc]
  rw [h.column]
  cases last with
  | none =>
    cases hb
    rw [hcolumn rfl, hgap]
    simp [separator, lastEndsOn, indentation, Bytes.replicate]
  | some l =>
    have hmem := (mem_commentGap_iff hindent hb ht (hleaves l rfl)).mpr hends
    rw [if_pos hmem]
    -- the line feed stands right before the indentation
    have hline : ∃ x, pending ++ (separator s t).flatten = x ++ [0x0A] := by
      rcases separator_cases s t with he | he | he
      · rw [he, List.flatten_nil, List.append_nil]
        rw [hgap, he, List.flatten_nil, List.append_nil, List.mem_append] at hmem
        rcases hb.pending_cases with rfl | rfl | rfl
        · exact absurd (hmem.resolve_right hindentation) (by decide)
        · exact ⟨[], rfl⟩
        · exact absurd (hmem.resolve_right hindentation) (by decide)
      · rw [he]
        exact ⟨pending, by simp⟩
      · rw [separator, hends, if_neg Bool.false_ne_true] at he
        split at he <;> cases he
    obtain ⟨x, hx⟩ := hline
    rw [hgap, hx, List.append_assoc, List.singleton_append, lastLine_append,
      lastLine_of_not_mem hindentation]

/-- A comment is read back from its text. -/
theorem readTrivia_commentText (newline : Bool) {c : Cursor} {code : Bytes}
    (hindent : IsBlank indent) (ht : CommentText t.kind t.value)
    (hc : c.rest = Utf8.glyphs (commentText indent s.level t ++
      ((if isInline t next then [0x20] else [0x0A]) ++ code))) :
    ∃ u d, u.content = (t.kind, writtenValue indent s.level t)
      ∧ d.rest = Utf8.glyphs ((if isInline t next then [0x20] else [0x0A]) ++ code)
      ∧ readTrivia newline c = (readTrivia
        (newline || (t.kind == .blockComment && holdsLineEnd t.value)) d).withComment u
      ∧ c.Reaches d ∧ u.start = c.position ∧ u.stop = d.position := by
  rcases ht with ⟨hk, hv⟩ | ⟨hk, hv⟩
  · have hinline : isInline t next = false := by simp [isInline, hk]
    rw [commentText, hinline, hk] at hc
    dsimp only at hc
    have hfalse : (newline || (Kind.lineComment == .blockComment && holdsLineEnd t.value)) =
        newline := by
      rw [show (Kind.lineComment == .blockComment) = false from rfl, Bool.false_and,
        Bool.or_false]
    rw [hinline, hk, hfalse, writtenValue, if_neg (by rw [hk]; exact Kind.noConfusion)]
    exact readTrivia_lineComment hv hc
  · have hend := (hindent.indentation s.level).ne_star
    rw [commentText, hk] at hc
    have hends : holdsLineEnd t.value =
        holdsLineEnd (reindent t.value t.start.column (indentation indent s.level)) :=
      holdsLineEnd_reindent.symm
    rw [hk, writtenValue, if_pos hk, hends]
    exact readTrivia_blockComment (not_holdsCommentEnd_reindent hend hv) hc

/-! ## Steps of the scan -/

/-- What is read from `d` to `e`, behind the white space from `c` to `d`, is read from what was
written. -/
theorem readFrom_of_skips {c d e : Cursor} {code : Bytes} {u : Token} (hkind : u.kind = t.kind)
    (hvalue : u.value = writtenValue indent s.level t)
    (hstart : u.start = d.position) (hstop : u.stop = e.position)
    (hskips : SkipsTo c (pending ++ (step indent s t next).1.gap.flatten) d) (hreach : d.Reaches e)
    (hc : c.rest = Utf8.glyphs (pending ++ (step indent s t next).1.gap.flatten ++
      ((step indent s t next).1.text ++ code)))
    (hd : d.rest = Utf8.glyphs ((step indent s t next).1.text ++ code))
    (he : e.rest = Utf8.glyphs code)
    (hcolumn : t.kind = .blockComment → lastEndsOn s t.start.line = false →
      d.column = (indentation indent s.level).length) :
    ReadFrom indent s pending c.position next t u where
  kind := hkind
  value := hvalue
  order := by
    rw [hstart]
    exact Int.ofNat_le.mpr hskips.line_le
  line := by
    rw [hstart]
    exact Int.ofNat_lt.trans hskips.line_lt
  column hk hends := by
    rw [hstart]
    exact congrArg Int.ofNat (hcolumn hk hends)
  startOffset := by
    rw [hstart]
    exact congrArg Int.ofNat (offset_of_reaches hskips.reaches hc hd)
  stopOffset := by
    rw [hstart, hstop]
    exact congrArg Int.ofNat (offset_of_reaches hreach hd he)

/-- A token that is written right behind what was read before. -/
theorem readFrom_adjacent {c e : Cursor} {code : Bytes} {u : Token} (hkind : u.kind = t.kind)
    (hvalue : u.value = t.value) (hk : t.kind ≠ .blockComment) (hstart : u.start = c.position)
    (hstop : u.stop = e.position) (hgap : pending ++ (step indent s t next).1.gap.flatten = [])
    (hreach : c.Reaches e) (hc : c.rest = Utf8.glyphs ((step indent s t next).1.text ++ code))
    (he : e.rest = Utf8.glyphs code) : ReadFrom indent s pending c.position next t u := by
  refine readFrom_of_skips hkind ?_ hstart hstop ?_ hreach ?_ hc he fun h => absurd h hk
  · rw [hvalue, writtenValue, if_neg hk]
  · rw [hgap]
    exact .nil c
  · rw [hgap]
    exact hc

section Steps

variable {situation : Situation} {prev : Kind} {last : Option Token} {c : Cursor} {code : Bytes}
variable {fuel : Nat} {ts : List Token} (hindent : IsBlank indent)
include hindent

/-- A comment is read back. -/
theorem readFrom_comment (hs : situation.innermost ≠ .template) (ht : CommentText t.kind t.value)
    (hb : Behind indent last (some t) s pending)
    (hleaves : ∀ l ∈ last, fillsLine l.kind = true → l.stop.line < t.start.line)
    (hcolumn : last = none → c.column = 0)
    (hc : c.rest = Utf8.glyphs (pending ++ ((step indent s t next).1.gap.flatten ++
      ((step indent s t next).1.text ++ ((step indent s t next).1.after.flatten ++ code)))))
    (hrun : Runs fuel situation prev newline c ts) :
    ∃ u e ts', ts = u :: ts' ∧ ReadFrom indent s pending c.position next t u
      ∧ u.stop = e.position
      ∧ e.rest = Utf8.glyphs ((step indent s t next).1.after.flatten ++ code)
      ∧ Runs fuel situation prev
        (newline || decide (0x0A ∈ pending ++ (commentGap indent s t).flatten)
          || (t.kind == .blockComment && holdsLineEnd t.value)) e ts' := by
  obtain ⟨hcomment, hne⟩ := ht.isComment
  have hhash : t.kind ≠ .hashbang := by
    rcases ht with ⟨he, _⟩ | ⟨he, _⟩ <;> rw [he] <;> exact Kind.noConfusion
  have hblank := isBlankByte_step hindent hb t next
  have hstep := @step_comment indent s t next hcomment
  rw [hstep] at hc hblank ⊢
  dsimp only at hc ⊢
  rw [List.flatten_singleton, ← List.append_assoc] at hc
  rw [List.flatten_singleton]
  -- first the white space, then the comment
  obtain ⟨d, hd, hskips, hrun⟩ := hrun.blanks hs hblank hc
  obtain ⟨u, e, hu, he, htrivia, hreach, hstart, hstop⟩ := readTrivia_commentText
    (newline || decide (0x0A ∈ pending ++ (commentGap indent s t).flatten)) hindent ht hd
  obtain ⟨ts', rfl, hrest⟩ := hrun.comment hs htrivia
  refine ⟨u, e, ts', rfl, ?_, hstop, he, hrest⟩
  exact readFrom_of_skips (congrArg Prod.fst hu) (congrArg Prod.snd hu) hstart hstop
    (hstep ▸ hskips) hreach (hstep ▸ hc) (hstep ▸ hd) he fun _ hends =>
      column_commentGap hindent hb hcomment hhash hends hleaves hcolumn hskips

/-- A token of ordinary code is read back, if the scan finds one of its kind and value. -/
theorem readFrom_token (hs : situation.innermost ≠ .template)
    (ht : Lexeme situation.exprAllowed t.kind t.value)
    (hb : Behind indent last (some t) s pending)
    (hbound : Bounded t.kind ((step indent s t next).1.after.flatten ++ code))
    (hc : c.rest = Utf8.glyphs (pending ++ ((step indent s t next).1.gap.flatten ++
      ((step indent s t next).1.text ++ ((step indent s t next).1.after.flatten ++ code)))))
    (hrun : Runs fuel situation prev newline c ts) {items : List (Kind × Bytes)}
    (hsame : codeContents ts = t.content :: items) :
    ∃ u e ts', ts = u :: ts' ∧ ReadFrom indent s pending c.position next t u
      ∧ u.stop = e.position ∧ codeContents ts' = items
      ∧ e.rest = Utf8.glyphs ((step indent s t next).1.after.flatten ++ code)
      ∧ collect fuel ⟨e, t.kind, { situation with newlineBefore := newline || decide (0x0A ∈
        pending ++ (step indent s t next).1.gap.flatten) }.after t.kind prev t.value, false, none⟩ =
          .ok ts' := by
  obtain ⟨hcomment, hne, _⟩ := ht.ordinary
  have hk : t.kind ≠ .blockComment := by
    intro hk
    rw [hk] at hcomment
    cases hcomment
  rw [← List.append_assoc] at hc
  -- what the layout wrote in front of the text is skipped as white space
  obtain ⟨d, hd, hskips, hrun⟩ := hrun.blanks hs (isBlankByte_step hindent hb t next) hc
  have hd' := hd
  rw [text_step hcomment hne (value_ne_nil_of_isKeyword ht)] at hd'
  obtain ⟨hends, hback⟩ := readToken_back ht hbound hd'
  have hdec : Utf8.IsDecoding d.rest := hd ▸ Utf8.isDecoding_glyphs _
  obtain ⟨u, e, ts', rfl, hread, hcontent, hitems, hcollect⟩ :=
    hrun.token_of_codeContents hs hends hdec hne hsame
  have hsound := readToken_sound hdec hends.comment hread
  have he := hback u e hread hcontent
  have hwritten : u.value = writtenValue indent s.level t := by
    rw [writtenValue, if_neg hk]
    exact congrArg Prod.snd hcontent
  refine ⟨u, e, ts', rfl, ?_, hsound.stop_eq, hitems, he, hcollect⟩
  exact readFrom_of_skips (congrArg Prod.fst hcontent) hwritten hsound.start_eq hsound.stop_eq
    hskips hsound.reaches hc hd he fun hk' => absurd hk' hk

end Steps

/-- A text with a space in front of it is not read as the text alone: where that one ended, the
scan would stop in front of a space. -/
theorem textTo_ne_of_space {c d : Cursor} {value rest : Bytes} {start : Position}
    (hc : c.rest = Utf8.glyphs (0x20 :: (value ++ rest)))
    (hread : readChunk start c = .ok d) : c.textTo d ≠ value := by
  intro hvalue
  have hdec : Utf8.IsDecoding c.rest := hc ▸ Utf8.isDecoding_glyphs _
  have hreach := readChunk_reaches hread
  have hends := readChunk_ends hread
  have hd : Utf8.glyphs (d.rest.flatMap (·.bytes)) = d.rest := hreach.isDecoding hdec
  obtain ⟨gs, hgs⟩ := hreach
  have hbytes : 0x20 :: (value ++ rest) = value ++ d.rest.flatMap (·.bytes) := by
    rw [← Utf8.bytes_glyphs (0x20 :: (value ++ rest)), ← hc, hgs.rest_eq, List.flatMap_append,
      ← hgs.textTo_eq hdec, hvalue]
  -- the text is then made of spaces, and another one follows
  have hspace : ∃ code, d.rest.flatMap (·.bytes) = 0x20 :: code := by
    generalize d.rest.flatMap (·.bytes) = tail at hbytes
    clear hvalue hc
    induction value with
    | nil => exact ⟨_, hbytes.symm⟩
    | cons b value ih =>
      rw [List.cons_append, List.cons_append, List.cons.injEq] at hbytes
      obtain ⟨rfl, hbytes⟩ := hbytes
      exact ih hbytes
  obtain ⟨code, hcode⟩ := hspace
  rw [hcode, Utf8.glyphs_ascii_cons (by decide)] at hd
  have hpeek : d.peek? = some ' ' := peek?_of_cons hd.symm
  unfold chunkEnds at hends
  rw [hpeek] at hends
  cases hends

/-- The text of a template literal and what ends it are read back. -/
theorem readFrom_chunk {situation : Situation} {c : Cursor} {code : Bytes} {fuel : Nat}
    {ts : List Token} {p : Punctuator} {u : Token} {items : List (Kind × Bytes)}
    (hs : situation.innermost = .template) (hl : opensChunk l.kind = true)
    (ht : t.kind = .template) (hstart : t.start = l.stop) (hu : u.kind = .punct p)
    (hvalue : u.value = []) (hstop : u.start = t.stop) (hchunk : Chunk t.value p)
    (hb : Behind indent (some l) (some t) s pending)
    (hc : c.rest = Utf8.glyphs (pending ++ ((step indent s t (some u)).1.gap.flatten ++
      ((step indent s t (some u)).1.text ++ ((step indent s t (some u)).1.after.flatten ++
        ((step indent (step indent s t (some u)).2 u next).1.gap.flatten ++
          ((step indent (step indent s t (some u)).2 u next).1.text ++ code)))))))
    (hrun : Runs fuel situation l.kind newline c ts)
    (hsame : codeContents ts = t.content :: u.content :: items) :
    ∃ t' u' e m ts', ts = t' :: u' :: ts'
      ∧ ReadFrom indent s pending c.position (some u) t t'
      ∧ ReadFrom indent (step indent s t (some u)).2 (step indent s t (some u)).1.after.flatten
        t'.stop next u u'
      ∧ u'.stop = e.position ∧ codeContents ts' = items ∧ e.rest = Utf8.glyphs code
      ∧ collect m ⟨e, .punct p, { situation with exprAllowed := false, newlineBefore := false
        }.after (.punct p) .template [], false, none⟩ = .ok ts' := by
  have hopens := opensChunk_iff.mp hl
  have hlabel := glyphs_utf8_append p.ascii_label code
  obtain ⟨rfl, hgap, htext, hafter, hgap', htext'⟩ := hb.chunk hopens ht hstart
    hchunk.delimiter hu hvalue hstop next
  rw [hgap, htext, hafter, hgap', htext', List.flatten_nil, List.nil_append, List.nil_append,
    List.nil_append] at hc
  obtain ⟨d, ts', rfl, hread, hchunks⟩ := hrun.chunk hs hl
  have hcontent : (rawToken .template c d).content = t.content := by
    rw [codeContents_token rfl] at hsame
    exact (List.cons.inj hsame).1
  have htextTo : c.textTo d = t.value := congrArg Prod.snd hcontent
  -- a space in front of the text would be a part of it
  have hparen : l.kind ≠ .punct .parenR := by
    intro hk
    rw [if_pos hk, List.flatten_singleton, List.singleton_append] at hc
    exact textTo_ne_of_space hc hread htextTo
  rw [if_neg hparen] at hc hgap
  rw [List.flatten_nil, List.nil_append] at hc
  have hreach := readChunk_reaches hread
  have hd : d.rest = Utf8.glyphs (utf8 p.label ++ code) := rest_of_textTo hc hreach htextTo
  rw [codeContents_token rfl] at hsame
  have hitems := (List.cons.inj hsame).2
  have hne : ts' ≠ [] := by
    rintro rfl
    cases hitems
  obtain ⟨m, us, rfl, hcollect⟩ :=
    collect_delimiter (by exact hs) hchunk.delimiter (hd.trans hlabel) hchunks hne
  have he : (d.advanceBy p.label.length).rest = Utf8.glyphs code := by
    rw [Cursor.advanceBy_rest, hd, hlabel, p.label_length]
    exact List.drop_left' (by simp [charGlyphs])
  rw [codeContents_token rfl] at hitems
  refine ⟨_, _, d.advanceBy p.label.length, m, us, rfl, ?_, ?_, rfl, (List.cons.inj hitems).2, he,
    hcollect⟩
  · exact readFrom_adjacent ht.symm htextTo (by rw [ht]; exact Kind.noConfusion) rfl rfl
      (by rw [hgap]; rfl) hreach (htext ▸ hc) hd
  · exact readFrom_adjacent hu.symm hvalue.symm (by rw [hu]; exact Kind.noConfusion) rfl rfl
      (by rw [hafter, hgap']; rfl) (Cursor.reaches_advanceBy _ d) (htext' ▸ hd) he

/-- The end is read back on a line of its own. -/
theorem readBack_eof {situation : Situation} {prev : Kind} {last : Option Token} {c : Cursor}
    {fuel : Nat} {ts : List Token} (hs : situation.innermost ≠ .template) (ht : t.kind = .eof)
    (hb : Behind indent last (some t) s pending)
    (hc : c.rest = Utf8.glyphs
      (pending ++ (emissionsFrom indent s [t]).flatMap Emission.bytes))
    (hrun : Runs fuel situation prev newline c ts) :
    ReadBack indent s pending c.position [t] ts := by
  obtain ⟨hblank, hmem⟩ := isBlankByte_eof hb ht
  rw [← List.append_nil (pending ++ _)] at hc
  obtain ⟨d, hd, hskips, hrun⟩ := hrun.blanks hs hblank hc
  rw [Utf8.glyphs_nil] at hd
  obtain ⟨u, e, hread, hcases⟩ := hrun.token hs (triviaEnds_of_nil hd)
  rw [readToken_of_nil hd] at hread
  cases hread
  rcases hcases with ⟨_, rfl⟩ | ⟨hk, _⟩
  · exact .eof ht rfl (Int.ofNat_lt.mpr (hskips.line_lt.mpr hmem))
  · exact absurd rfl hk

/-! ## Runs -/

/-- **What is written is read back**, if a scan of it gives the same code. -/
theorem readBack_emissions {situation : Situation} {prev : Kind} {last : Option Token}
    {tokens : List Token} (hindent : IsBlank indent)
    (h : Lexed situation prev last seen tokens) (hlast : LastOf last prev)
    (hb : Behind indent last tokens.head? s pending) (hnewline : prev ≠ .eof → newline = seen)
    {situation' : Situation} (hscope : SameScope situation situation') {c : Cursor}
    (hcolumn : last = none → c.column = 0)
    (hc : c.rest = Utf8.glyphs
      (pending ++ (emissionsFrom indent s tokens).flatMap Emission.bytes)) {fuel : Nat}
    {ts : List Token} (hrun : Runs fuel situation' prev newline c ts)
    (hsame : codeContents ts = codeContents tokens) :
    ReadBack indent s pending c.position tokens ts := by
  -- Both scans are behind the same token, in the same scope and with the same flag. The steps find
  -- the token again, and the flag is what the gap before it says.
  induction h generalizing s pending newline situation' c fuel ts with
  | @comment situation prev last seen t rest flag hs ht hline hrest ih =>
    obtain ⟨hcomment, hne⟩ := ht.isComment
    rw [bytes_emissionsFrom_cons] at hc
    obtain ⟨u, e, ts, rfl, hread, hstop, he, hrun⟩ := readFrom_comment hindent
      (hscope.innermost ▸ hs) ht hb
      (fun l hl hf => (hline.lineComment l hl hf).resolve_right hne) hcolumn hc hrun
    have hcomment' : u.isComment = true := (Token.isComment_of_kind hread.kind).trans hcomment
    rw [codeContents_comment hcomment, codeContents_comment hcomment'] at hsame
    refine .token hne hread ?_
    rw [hstop]
    have hflag := hlast.flag_comment hindent hb hcomment hnewline hline
    exact ih (lastOf_comment ht) (Behind.step hne) (fun hprev => by rw [← hflag hprev]) hscope
      (fun hl => by cases hl) he hrun hsame
  | @chunk situation prev l seen t u p rest hs hprev hl ht hstart hu hvalue hstop hchunk hrest ih =>
    subst hl
    have htne : t.kind ≠ .eof := by rw [ht]; exact Kind.noConfusion
    have hune : u.kind ≠ .eof := by rw [hu]; exact Kind.noConfusion
    have htcomment : t.isComment = false := Token.isComment_of_kind ht
    have hucomment : u.isComment = false := Token.isComment_of_kind hu
    have hnext := lastOf_token hucomment
    rw [hu] at hnext
    rw [bytes_emissionsFrom_cons, bytes_emissionsFrom_cons] at hc
    rw [codeContents_token htcomment, codeContents_token hucomment] at hsame
    obtain ⟨t', u', e, m, ts, rfl, ht', hu', hstop', hsame, he, hcollect⟩ := readFrom_chunk
      (hscope.innermost ▸ hs) hprev ht hstart hu hvalue hstop hchunk hb hc hrun hsame
    refine .token htne ht' (.token hune hu' ?_)
    rw [hstop']
    obtain ⟨m, hrun⟩ := runs_of_collect hcollect (hrest.ne_nil_of_codeContents_eq hsame)
    refine ih hnext (Behind.step hune) (fun _ => rfl) ?_ (fun hl => by cases hl) he hrun hsame
    rw [← hscope.opened]
    exact ⟨rfl, rfl⟩
  | @token situation prev last seen t rest flag hs ht hline hrest ih =>
    obtain ⟨hcomment, hne, _⟩ := ht.ordinary
    have hbound := bounded_next hindent hrest (Behind.step (s := s) hne) ht
    rw [bytes_emissionsFrom_cons] at hc
    rw [codeContents_token hcomment] at hsame
    obtain ⟨u, e, ts, rfl, hread, hstop, hsame, he, hcollect⟩ := readFrom_token hindent
      (hscope.innermost ▸ hs) (hscope.exprAllowed ▸ ht) hb hbound hc hrun hsame
    refine .token hne hread ?_
    rw [hstop]
    obtain ⟨m, hrun⟩ := runs_of_collect hcollect (hrest.ne_nil_of_codeContents_eq hsame)
    refine ih (lastOf_token hcomment) (Behind.step hne) (fun _ => rfl) ?_ (fun hl => by cases hl)
      he hrun hsame
    rw [← hscope.newlineBefore]
    exact sameScope_after _ _ (hlast.flag_token hb hcomment hne hnewline hline)
  | @eof situation prev last seen t flag hs ht hvalue hline =>
    exact readBack_eof (hscope.innermost ▸ hs) ht hb hc hrun

/-! ## Whole sources -/

/-- What is written first starts neither with a byte order mark nor with a comment line of the
kind for first lines. -/
theorem startsPlain_emissions {situation : Situation} {prev : Kind} {tokens : List Token}
    {c : Cursor} (hindent : IsBlank indent) (h : Lexed situation prev none seen tokens)
    (hc : c.rest = Utf8.glyphs ((emissionsFrom indent {} tokens).flatMap Emission.bytes)) :
    StartsPlain c := by
  cases h with
  | @comment _ _ _ _ t rest _ _ ht _ _ =>
    rw [bytes_emissionsFrom_cons, step_comment ht.isComment.1] at hc
    refine startsPlain_blank_append (isBlankByte_flatten hindent isPiece_commentGap) hc
      fun hnil => ?_
    dsimp only at hc
    rw [hnil, List.nil_append, commentText] at hc
    rcases ht with ⟨hk, _⟩ | ⟨hk, _⟩
    all_goals
      rw [hk] at hc
      dsimp only at hc
      simp only [List.append_assoc] at hc
      rw [glyphs_utf8_append (by decide)] at hc
      have hpeek : c.peek? = some '/' := peek?_of_cons hc
      exact startsPlain_of_peek? hpeek (by decide) (by decide)
  -- the text comes first unless a gap does, and blanks start plainly anyway
  | @token _ _ _ _ t rest _ _ ht _ hrest =>
    obtain ⟨hcomment, hne, _⟩ := ht.ordinary
    have hbound := bounded_next (s := (step indent {} t rest.head?).2) hindent hrest
      (Behind.step hne) ht
    rw [bytes_emissionsFrom_cons] at hc
    refine startsPlain_blank_append (isBlankByte_flatten hindent (isPiece_step t rest.head?)) hc
      fun hnil => startsPlain_text ht hbound ?_
    rw [hc, hnil, text_step hcomment hne (value_ne_nil_of_isKeyword ht)]
    rfl
  | @eof _ _ _ _ t _ _ ht _ _ =>
    rw [bytes_emissionsFrom_cons, step_eof ht] at hc
    have hc' : c.rest = Utf8.glyphs (0x0A :: []) := hc
    rw [Utf8.glyphs_ascii_cons (by decide)] at hc'
    exact startsPlain_of_peek? (peek?_of_cons hc') (by decide) (by decide)

/-- The run of a source that starts plainly, behind the line that may come first. -/
theorem runs_of_tokenize {o : Options} {code : Bytes} {ts : List Token}
    (hstart : StartsPlain (Cursor.ofSource (leading o ++ code)))
    (h : tokenize (leading o ++ code) = .ok ts) (hne : ts ≠ []) :
    ∃ fuel newline d, d.rest = Utf8.glyphs code ∧ d.column = 0 ∧ d.offset = (leading o).length
      ∧ Runs fuel {} .eof newline d ts := by
  rw [tokenize_of_startsPlain hstart] at h
  obtain ⟨fuel, hrun⟩ := runs_of_collect h hne
  obtain ⟨d, hd, hskips, hrun⟩ := hrun.blanks (show Context.block ≠ .template by decide)
    isBlankByte_leading rfl
  refine ⟨fuel, _, d, hd, ?_, ?_, hrun⟩
  · rw [hskips.column]
    unfold leading
    cases o.leadingNewline
    · rfl
    · rfl
  · exact (offset_of_reaches hskips.reaches rfl hd).trans (Nat.zero_add _)

/-- A comment line of the kind for first lines is only accepted at the start. -/
theorem not_tokenize_hashbang {o : Options} {code : Bytes} {ts : List Token}
    (ho : o.leadingNewline = true) (hne : ts ≠ []) :
    tokenize (leading o ++ (utf8 "#!" ++ code)) ≠ .ok ts := by
  intro h
  have hlead : leading o = [0x0A] := if_pos ho
  have hstart : StartsPlain (Cursor.ofSource (leading o ++ (utf8 "#!" ++ code))) := by
    refine startsPlain_blank_append isBlankByte_leading rfl fun hnil => ?_
    rw [hlead] at hnil
    cases hnil
  obtain ⟨fuel, newline, d, hd, _, _, hrun⟩ := runs_of_tokenize hstart h hne
  rw [glyphs_utf8_append (by decide)] at hd
  have hpeek : d.peek? = some '#' := peek?_of_cons hd
  obtain ⟨u, e, hread, _⟩ := hrun.token (show Context.block ≠ .template by decide)
    (triviaEnds_of_peek? hpeek (by decide) (by decide) (by decide))
  exact readToken_hashbang ⟨hpeek, peekSecond?_of_cons hd⟩ hread

/-- The run of a source that starts with a comment line of that kind. -/
theorem runs_of_tokenize_hashbang {v code : Bytes} {ts : List Token}
    (h : tokenize (utf8 "#!" ++ (v ++ code)) = .ok ts) :
    ∃ fuel c ts', c.rest = Utf8.glyphs (utf8 "#!" ++ (v ++ code)) ∧ c.position = ⟨1, 0, 0⟩
      ∧ ts = (readLineComment .hashbang c).1 :: ts'
      ∧ collect fuel ⟨(readLineComment .hashbang c).2, .eof, {}, false, none⟩ = .ok ts' := by
  have hc : (Cursor.ofSource (utf8 "#!" ++ (v ++ code))).rest =
      charGlyphs ['#', '!'] ++ Utf8.glyphs (v ++ code) := glyphs_utf8_append (by decide) _
  generalize utf8 "#!" ++ (v ++ code) = source at h hc ⊢
  rw [tokenize_of_startsHashbang hc] at h
  generalize hrun : collect _ _ = r at h
  cases r with
  | error e => cases h
  | ok ts' =>
    cases h
    exact ⟨_, Cursor.ofSource source, ts', rfl, rfl, rfl, hrun⟩

/-- A comment line of the kind for first lines is read back. -/
theorem readFrom_hashbang {c : Cursor} {code : Bytes} (ht : t.kind = .hashbang)
    (hvalue : holdsLineEnd t.value = false)
    (hc : c.rest = Utf8.glyphs (utf8 "#!" ++ (t.value ++ 0x0A :: code))) :
    ReadFrom indent {} [] c.position next t (readLineComment .hashbang c).1
      ∧ (readLineComment .hashbang c).2.rest = Utf8.glyphs (0x0A :: code) := by
  have hcomment : t.isComment = true := Token.isComment_of_kind ht
  have hgap : (step indent {} t next).1.gap = [] := by
    rw [step_comment hcomment, commentGap, if_pos ht]
    rfl
  have htext : (step indent {} t next).1.text = utf8 "#!" ++ t.value := by
    rw [step_comment hcomment, commentText, ht]
  have hhash := hc
  rw [glyphs_utf8_append (by decide)] at hhash
  obtain ⟨hcontent, hrest⟩ :=
    readLineComment_complete .hashbang (by decide) (by decide) hvalue hhash
  rw [← List.append_assoc, ← htext] at hc
  have hkind : (readLineComment .hashbang c).1.kind = t.kind := ht.symm
  refine ⟨readFrom_adjacent hkind (congrArg Prod.snd hcontent) ?_ rfl rfl ?_
    (readLineComment_reaches .hashbang c) hc hrest, hrest⟩
  · rw [ht]
    exact Kind.noConfusion
  · rw [hgap]
    rfl

/-- Such a line ends with a line feed. -/
theorem after_hashbang (ht : t.kind = .hashbang) :
    (step indent {} t next).1.after.flatten = [0x0A] := by
  have hinline : isInline t next = false := by simp [isInline, ht]
  rw [step_comment (Token.isComment_of_kind ht), hinline]
  rfl

/-- What is written for tokens that start with such a line. -/
theorem bytes_emissionsFrom_hashbang (ht : t.kind = .hashbang) (rest : List Token) :
    (emissionsFrom indent {} (t :: rest)).flatMap Emission.bytes =
      utf8 "#!" ++ (t.value ++ 0x0A :: (emissionsFrom indent
        (step indent {} t rest.head?).2 rest).flatMap Emission.bytes) := by
  rw [bytes_emissionsFrom_cons, after_hashbang ht, step_comment (Token.isComment_of_kind ht),
    commentGap, if_pos ht, commentText, ht]
  rfl

/-- A source without such a line is read back. -/
theorem readBack_plain {o : Options} {tokens tokens' : List Token} (hindent : IsBlank o.indent)
    (hlexed : Lexed {} .eof none false tokens)
    (h : tokenize (leading o ++ (emissionsFrom o.indent {} tokens).flatMap Emission.bytes)
      = .ok tokens') (hsame : codeContents tokens' = codeContents tokens) :
    ∃ start : Position, start.offset = (leading o).length
      ∧ ReadBack o.indent {} [] start tokens tokens' := by
  have hstart : StartsPlain (Cursor.ofSource
      (leading o ++ (emissionsFrom o.indent {} tokens).flatMap Emission.bytes)) := by
    refine startsPlain_blank_append isBlankByte_leading rfl fun hnil => ?_
    exact startsPlain_emissions hindent hlexed (by rw [hnil]; rfl)
  obtain ⟨fuel, newline, d, hd, hcolumn, hoffset, hrun⟩ :=
    runs_of_tokenize hstart h (hlexed.ne_nil_of_codeContents_eq hsame)
  refine ⟨d.position, congrArg Int.ofNat hoffset, ?_⟩
  exact readBack_emissions hindent hlexed
    ⟨fun l hl => (by cases hl), fun l hl => (by cases hl), fun _ => rfl⟩ .start
    (fun hn => absurd rfl hn) ⟨rfl, rfl⟩ (fun _ => hcolumn) hd hrun hsame

/-- A source that starts with such a line is read back, if nothing is written in front of it. -/
theorem readBack_hashbang {rest tokens' : List Token} (hindent : IsBlank indent)
    (ht : t.kind = .hashbang) (hvalue : holdsLineEnd t.value = false)
    (hlexed : Lexed {} .eof (some t) false rest)
    (h : tokenize ((emissionsFrom indent {} (t :: rest)).flatMap Emission.bytes) = .ok tokens')
    (hsame : codeContents tokens' = codeContents rest) :
    ReadBack indent {} [] ⟨1, 0, 0⟩ (t :: rest) tokens' := by
  have hcomment : t.isComment = true := Token.isComment_of_kind ht
  have hne : t.kind ≠ .eof := by rw [ht]; exact Kind.noConfusion
  rw [bytes_emissionsFrom_hashbang ht] at h
  obtain ⟨fuel, c, ts, hc, hstart, rfl, hcollect⟩ := runs_of_tokenize_hashbang h
  obtain ⟨hread, hrest⟩ := @readFrom_hashbang indent t rest.head? c _ ht hvalue hc
  rw [codeContents_comment (show (readLineComment .hashbang c).1.isComment = true from rfl)]
    at hsame
  obtain ⟨m, hrun⟩ := runs_of_collect hcollect (hlexed.ne_nil_of_codeContents_eq hsame)
  rw [hstart] at hread
  refine .token hne hread ?_
  refine readBack_emissions hindent hlexed ?_ (Behind.step hne) (fun _ => rfl) ⟨rfl, rfl⟩
    (fun hl => by cases hl) ?_ hrun hsame
  · exact ⟨fun l hl hk => (by cases hl; rw [hcomment] at hk; cases hk), fun _ _ _ => rfl,
      fun hl => (by cases hl)⟩
  · rw [after_hashbang ht]
    exact hrest

/-- **The output is read back**, if it is accepted with the same code. -/
theorem readBack_format {o : Options} {source : Bytes} {tokens tokens' : List Token}
    (hindent : IsBlank o.indent) (h : tokenize source = .ok tokens)
    (h' : tokenize (formatTokens o tokens).code = .ok tokens')
    (hsame : codeContents tokens' = codeContents tokens) :
    ∃ start : Position, start.offset = (leading o).length
      ∧ ReadBack o.indent {} [] start tokens tokens' := by
  have hsource := tokenize_lexed h
  rw [code_formatTokens hsource] at h'
  cases hsource with
  | plain hlexed => exact readBack_plain hindent hlexed h' hsame
  | @hashbang t rest ht hvalue hlexed =>
    rw [codeContents_comment (Token.isComment_of_kind ht)] at hsame
    cases hlead : o.leadingNewline with
    | true =>
      rw [bytes_emissionsFrom_hashbang ht] at h'
      exact absurd h' (not_tokenize_hashbang hlead (hlexed.ne_nil_of_codeContents_eq hsame))
    | false =>
      have hnil : leading o = [] := by rw [leading, hlead]; rfl
      rw [hnil, List.nil_append] at h'
      exact ⟨⟨1, 0, 0⟩, by rw [hnil]; rfl, readBack_hashbang hindent ht hvalue hlexed h' hsame⟩

/-- The output is formatted to itself exactly if all comments are settled. -/
theorem code_formatTokens_eq_iff {o : Options} {source : Bytes} {tokens tokens' : List Token}
    (hindent : IsBlank o.indent) (h : tokenize source = .ok tokens)
    (h' : tokenize (formatTokens o tokens).code = .ok tokens')
    (hsame : codeContents tokens' = codeContents tokens) :
    (formatTokens o tokens').code = (formatTokens o tokens).code ↔
      Settled o.indent {} tokens tokens' := by
  have hsource := tokenize_lexed h
  obtain ⟨start, _, hread⟩ := readBack_format hindent h h' hsame
  -- nothing is remembered at the start, so both runs start alike
  have hstart : ({} : LayoutState).rereadAs [] start.line = {} := rfl
  rw [code_formatTokens hsource, code_formatTokens (tokenize_lexed h'), List.append_right_inj,
    ← bytes_readBack_iff hindent hread .start (fun l hl => by cases hl) hsource.leavesLine
      hsource.commentsClosed [], hstart]

/-- Only block comments have to be settled. -/
theorem settled_of_lineComments {s : LayoutState} {tokens : List Token}
    (h : ∀ t ∈ tokens, t.kind ≠ .blockComment) (tokens' : List Token) :
    Settled indent s tokens tokens' := by
  induction tokens generalizing s tokens' with
  | nil => simp [Settled]
  | cons t rest ih =>
    cases tokens' with
    | nil => simp [Settled]
    | cons t' rest' =>
      have hk := h t List.mem_cons_self
      refine ⟨fun _ => ⟨fun hin => ?_, fun hk' => absurd hk' hk⟩,
        ih (fun u hu => h u (List.mem_cons_of_mem t hu)) rest'⟩
      simp only [isInline, Bool.and_eq_true, beq_iff_eq] at hin
      exact absurd hin.1 hk

/-- **Without block comments, formatting again changes nothing.** -/
theorem code_formatTokens_of_lineComments {o : Options} {source : Bytes}
    {tokens tokens' : List Token} (hindent : IsBlank o.indent) (h : tokenize source = .ok tokens)
    (h' : tokenize (formatTokens o tokens).code = .ok tokens')
    (hsame : codeContents tokens' = codeContents tokens)
    (hcomments : ∀ t ∈ tokens, t.kind ≠ .blockComment) :
    (formatTokens o tokens').code = (formatTokens o tokens).code :=
  (code_formatTokens_eq_iff hindent h h' hsame).mpr (settled_of_lineComments hcomments tokens')

end Layout

/-- **Formatting again changes nothing exactly if all comments are settled.** The output of a
source, if it is accepted with the same code, is formatted to itself unless a comment that was
written behind a token has its lines moved again, or the space behind a comment becomes a line
end because what it was written for has moved to a line of its own. -/
theorem format_format_iff (o : Options) {source : Bytes} {tokens tokens' : List Token}
    (hindent : Layout.IsBlank o.indent) (h : tokenize source = .ok tokens)
    (h' : tokenize (formatTokens o tokens).code = .ok tokens')
    (hsame : codeContents tokens' = codeContents tokens) :
    ∃ f g, format o source = .ok f ∧ format o f.code = .ok g
      ∧ (g.code = f.code ↔ Layout.Settled o.indent {} tokens tokens') :=
  ⟨formatTokens o tokens, formatTokens o tokens', by rw [format, h], by rw [format, h'],
    Layout.code_formatTokens_eq_iff hindent h h' hsame⟩

theorem format_format_iff_comment_at_end :
    ∃ f g, format { indent := utf8 "  " } (utf8 "a/*x*/") = .ok f
      ∧ format { indent := utf8 "  " } f.code = .ok g
      ∧ (g.code = f.code ↔ Layout.Settled (utf8 "  ") {}
        [⟨.name, utf8 "a", ⟨1, 0, 0⟩, ⟨1, 1, 1⟩⟩, ⟨.blockComment, utf8 "x", ⟨1, 1, 1⟩, ⟨1, 6, 6⟩⟩,
          ⟨.eof, [], ⟨1, 6, 6⟩, ⟨1, 6, 6⟩⟩]
        [⟨.name, utf8 "a", ⟨1, 0, 0⟩, ⟨1, 1, 1⟩⟩, ⟨.blockComment, utf8 "x", ⟨1, 2, 2⟩, ⟨1, 7, 7⟩⟩,
          ⟨.eof, [], ⟨2, 0, 9⟩, ⟨2, 0, 9⟩⟩]) :=
  format_format_iff { indent := utf8 "  " }
    (fun _ hb => Or.inl (List.eq_of_mem_replicate (show _ ∈ List.replicate 2 0x20 from hb)))
    (by decide +kernel) (by decide +kernel) (by decide +kernel)

/-- The space behind a comment at the end of a source is gone when the output is formatted. -/
theorem format_format_ne_comment_at_end :
    ∃ f g tokens tokens', tokenize (utf8 "a/*x*/") = .ok tokens
      ∧ format { indent := utf8 "  " } (utf8 "a/*x*/") = .ok f
      ∧ tokenize f.code = .ok tokens' ∧ codeContents tokens' = codeContents tokens
      ∧ format { indent := utf8 "  " } f.code = .ok g ∧ g.code ≠ f.code := by
  have htokens : tokenize (utf8 "a/*x*/") = .ok [⟨.name, utf8 "a", ⟨1, 0, 0⟩, ⟨1, 1, 1⟩⟩,
      ⟨.blockComment, utf8 "x", ⟨1, 1, 1⟩, ⟨1, 6, 6⟩⟩, ⟨.eof, [], ⟨1, 6, 6⟩, ⟨1, 6, 6⟩⟩] := by
    decide +kernel
  have htokens' : tokenize (utf8 "a /*x*/ \n") = .ok [⟨.name, utf8 "a", ⟨1, 0, 0⟩, ⟨1, 1, 1⟩⟩,
      ⟨.blockComment, utf8 "x", ⟨1, 2, 2⟩, ⟨1, 7, 7⟩⟩, ⟨.eof, [], ⟨2, 0, 9⟩, ⟨2, 0, 9⟩⟩] := by
    decide +kernel
  have hcode : (formatTokens { indent := utf8 "  " } [⟨.name, utf8 "a", ⟨1, 0, 0⟩, ⟨1, 1, 1⟩⟩,
      ⟨.blockComment, utf8 "x", ⟨1, 1, 1⟩, ⟨1, 6, 6⟩⟩, ⟨.eof, [], ⟨1, 6, 6⟩, ⟨1, 6, 6⟩⟩]).code =
      utf8 "a /*x*/ \n" := by
    decide +kernel
  refine ⟨formatTokens _ _, formatTokens _ _, _, _, htokens, by rw [format, htokens],
    by rw [hcode, htokens'], by decide +kernel, by rw [hcode, format, htokens'], ?_⟩
  decide +kernel

end ScriptTidy
