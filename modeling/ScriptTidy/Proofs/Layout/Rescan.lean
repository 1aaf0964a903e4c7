import ScriptTidy.Proofs.Layout.Places
import ScriptTidy.Proofs.Layout.Separation
import ScriptTidy.Proofs.Scanner.Spells

/-!
# Scanning a text whose tokens are known

`Spells` predicts what a text is scanned as if the texts of its tokens do not join. Here the scan
is given instead: it has succeeded, and its tokens have the kinds and values of the tokens whose
texts were written. Then each token ends where its text does, because a text that had joined with
the next one would have been read as another token.

* `readTrivia_blanks` : white space is skipped, and lines and columns are counted along.
* `Bounded`, `readToken_back` : a token of the right kind and value ends with its text.
* `Runs` and its lemmas : the steps of a run that has succeeded.
-/

namespace ScriptTidy.Scanner

open Cursor StringLiteral

variable {c d : Cursor} {rest : Bytes} {newline : Bool} {prev : Kind} {fuel : Nat}

/-! ## White space -/

/-- The cursor `d` stands behind the white space `blank`, which starts at `c`. -/
structure SkipsTo (c : Cursor) (blank : Bytes) (d : Cursor) : Prop where
  reaches : c.Reaches d
  line : d.line = c.line + blank.count 0x0A
  column : d.column =
    if 0x0A ∈ blank then (lastLine blank).length else c.column + blank.length

theorem SkipsTo.nil (c : Cursor) : SkipsTo c [] c := ⟨Reaches.refl c, rfl, rfl⟩

theorem SkipsTo.line_le {blank : Bytes} (h : SkipsTo c blank d) : c.line ≤ d.line := by
  rw [h.line]
  exact Nat.le_add_right _ _

theorem SkipsTo.line_lt {blank : Bytes} (h : SkipsTo c blank d) :
    c.line < d.line ↔ 0x0A ∈ blank := by
  rw [h.line, ← List.count_pos_iff]
  omega

theorem advance_blank {b : UInt8} {gs : List Glyph} (hb : isBlankByte b = true)
    (hc : c.rest = ⟨Char.ofNat b.toNat, [b]⟩ :: gs) : SkipsTo c [b] c.advance := by
  have hadvance : c.advance = c.past ⟨Char.ofNat b.toNat, [b]⟩ gs := by
    rw [advance, next?, hc]
  rw [hadvance]
  rcases isBlankByte_cases hb with rfl | rfl | rfl
  all_goals exact ⟨hadvance ▸ reaches_advance c, rfl, rfl⟩

theorem SkipsTo.cons {b : UInt8} {blank : Bytes} {e : Cursor} (h : SkipsTo c [b] d)
    (h' : SkipsTo d blank e) : SkipsTo c (b :: blank) e where
  reaches := h.reaches.trans h'.reaches
  line := by
    rw [h'.line, h.line, List.count_cons (a := 0x0A) (b := b) (l := blank),
      List.count_singleton]
    omega
  column := by
    rw [h'.column, h.column]
    -- Columns count from the last line feed: one in the rest, this byte, or one before it.
    by_cases hmem : (0x0A : UInt8) ∈ blank
    · obtain ⟨x, y, rfl⟩ := List.append_of_mem hmem
      rw [if_pos hmem, if_pos (List.mem_cons_of_mem b hmem), ← List.cons_append, lastLine_append,
        lastLine_append]
    · rw [if_neg hmem]
      by_cases hb : b = 0x0A
      · subst hb
        rw [if_pos (List.mem_singleton_self _), if_pos List.mem_cons_self,
          ← List.nil_append (0x0A :: blank), lastLine_append, lastLine_of_not_mem hmem,
          show lastLine [0x0A] = [] from rfl, List.length_nil, Nat.zero_add]
      · have hne : (0x0A : UInt8) ∉ b :: blank := by
          rw [List.mem_cons, not_or]
          exact ⟨fun he => hb he.symm, hmem⟩
        rw [if_neg hne, if_neg fun he => hb (List.mem_singleton.mp he).symm,
          List.length_singleton, List.length_cons]
        omega

/-- **White space is skipped**, and lines and columns are counted along. -/
theorem readTrivia_blanks (newline : Bool) {blank code : Bytes}
    (hblank : ∀ b ∈ blank, isBlankByte b = true)
    (hc : c.rest = Utf8.glyphs (blank ++ code)) :
    ∃ d, d.rest = Utf8.glyphs code ∧ SkipsTo c blank d
      ∧ readTrivia newline c = readTrivia (newline || decide (0x0A ∈ blank)) d := by
  induction blank generalizing c newline with
  | nil => exact ⟨c, hc, .nil c, by simp⟩
  | cons b blank ih =>
    have hb := hblank b List.mem_cons_self
    rw [List.cons_append, Utf8.glyphs_ascii_cons (ascii_of_isBlankByte hb)] at hc
    obtain ⟨d, hd, hskips, htrivia⟩ := @ih c.advance (newline || b == 0x0A)
      (fun x hx => hblank x (List.mem_cons_of_mem b hx)) (by rw [advance_rest, hc]; rfl)
    refine ⟨d, hd, (advance_blank hb hc).cons hskips, ?_⟩
    rw [readTrivia_blank hb hc, htrivia]
    congr 1
    rw [Bool.or_assoc, Bool.eq_iff_iff]
    simp only [Bool.or_eq_true, beq_iff_eq, decide_eq_true_eq, List.mem_cons, eq_comm (a := b)]

/-! ## Where a token ends -/

/-- A text that was read as it stands ends where it should, if its value is the right one. -/
theorem rest_of_textTo {value : Bytes} (hc : c.rest = Utf8.glyphs (value ++ rest))
    (hreach : c.Reaches d) (hvalue : c.textTo d = value) : d.rest = Utf8.glyphs rest := by
  have hdec : Utf8.IsDecoding c.rest := hc ▸ Utf8.isDecoding_glyphs _
  have hdec' : Utf8.glyphs (d.rest.flatMap (·.bytes)) = d.rest := hreach.isDecoding hdec
  obtain ⟨gs, hgs⟩ := hreach
  have hbytes : c.rest.flatMap (·.bytes) = value ++ rest := by rw [hc, Utf8.bytes_glyphs]
  rw [hgs.rest_eq, List.flatMap_append, ← hgs.textTo_eq hdec, hvalue,
    List.append_cancel_left_eq] at hbytes
  rw [← hdec', hbytes]

/-- Offsets count the bytes that were read. -/
theorem offset_of_reaches {text : Bytes} (hreach : c.Reaches d)
    (hc : c.rest = Utf8.glyphs (text ++ rest)) (hd : d.rest = Utf8.glyphs rest) :
    d.offset = c.offset + text.length := by
  obtain ⟨gs, hgs⟩ := hreach
  have hbytes : text ++ rest = gs.flatMap (·.bytes) ++ rest := by
    rw [← Utf8.bytes_glyphs (text ++ rest), ← hc, hgs.rest_eq, List.flatMap_append, hd,
      Utf8.bytes_glyphs]
  rw [hgs.offset_eq, ← List.append_cancel_right hbytes]

/-- What is known of where a token ends from its kind: numbers and regular expressions are read as
they stand, and punctuators have a known length. -/
def EndsByKind (u : Token) (c d : Cursor) : Prop :=
  ((u.kind = .num ∨ u.kind = .regexp) → c.Reaches d ∧ u.value = c.textTo d)
    ∧ ∀ p, u.kind = .punct p → d = c.advanceBy p.label.length

theorem endsByKind_of_kind {u : Token} (h : u.kind = .string ∨ u.kind = .privateName
    ∨ u.kind = .name ∨ u.kind = .eof ∨ ∃ k, u.kind = .keyword k) : EndsByKind u c d := by
  unfold EndsByKind
  rcases h with h | h | h | h | ⟨k, h⟩
  all_goals
    rw [h]
    exact ⟨fun hk => (by rcases hk with hk | hk <;> cases hk), fun p hk => (by cases hk)⟩

theorem readToken_endsByKind {exprAllowed : Bool} {u : Token}
    (h : readToken exprAllowed c = .ok (u, d)) : EndsByKind u c d := by
  -- nothing is claimed of kinds other than numbers, regular expressions and punctuators
  cases tokenForm_of_readToken h with
  | @word word =>
    rcases wordKind_cases word with ⟨k, hk⟩ | hk
    · exact endsByKind_of_kind (by simp [hk])
    · exact endsByKind_of_kind (by simp [hk])
  | number _ hread => exact ⟨fun _ => ⟨readNumber_reaches hread, rfl⟩, fun p hk => (by cases hk)⟩
  | regexp _ _ hread => exact ⟨fun _ => ⟨readRegexp_reaches hread, rfl⟩, fun p hk => (by cases hk)⟩
  | punct =>
    refine ⟨fun hk => (by rcases hk with hk | hk <;> cases hk), fun p hk => ?_⟩
    cases hk
    rfl
  | eof | string | privateName => exact endsByKind_of_kind (by simp [bareToken])

/-- What may follow the text of a token of kind `kind` for the end of the token to be known from
its kind and value. -/
def Bounded (kind : Kind) (rest : Bytes) : Prop :=
  Separated kind rest ∨ ((kind = .num ∨ kind = .regexp) ∧ Utf8.Fresh rest)
    ∨ ∃ p, kind = .punct p ∧ p.firstChar ≠ '/'

theorem rest_of_readToken_string {exprAllowed : Bool} {ns : List Nat}
    (hns : ∀ n ∈ ns, n < 0x110000)
    (hc : c.rest = Utf8.glyphs (quote (ns.flatMap Utf8.encode) ++ rest)) :
    TriviaEnds c
      ∧ ∀ u d, readToken exprAllowed c = .ok (u, d) → d.rest = Utf8.glyphs rest := by
  rw [quote, escape_flatMap hns, List.append_assoc, List.append_assoc, List.singleton_append,
    List.singleton_append, Utf8.glyphs_ascii_cons (by decide)] at hc
  have hpeek : c.peek? = some '\'' := peek?_of_cons hc
  have hnumber := startsNumber_eq_false hpeek (by decide) (fun h => absurd h (by decide))
  refine ⟨triviaEnds_of_peek? hpeek (by decide) (by decide) (by decide), fun u d hread => ?_⟩
  obtain ⟨e, he, hrest⟩ := readString_joined c.position (c := c.advance) hns
    (by rw [advance_rest, hc]; rfl)
  rw [readToken_other hpeek (by decide) hnumber, if_pos (Or.inr rfl), readQuoted, he] at hread
  cases hread
  exact hrest

theorem triviaEnds_of_raw {exprAllowed : Bool} {t : Token} (ht : Lexeme exprAllowed t.kind t.value)
    (hkind : t.kind = .num ∨ t.kind = .regexp) (hfresh : Utf8.Fresh rest)
    (hc : c.rest = Utf8.glyphs (t.text ++ rest)) : TriviaEnds c := by
  obtain ⟨g, gs, hg, hstart⟩ := text_startsAs ht rest
  rcases hkind with hk | hk
  · rw [hk] at hstart
    obtain ⟨_, hline, hspace, hslash⟩ := digit_or_point hstart
    exact triviaEnds_of_peek? (peek?_of_cons (hc.trans hg)) hline hspace hslash
  · obtain ⟨_, _, gs, hpeek, hstar, hslashes, hread, hgs, hdec, hvalue⟩ :=
      ht.value_of_kind.2.1 hk
    rw [Token.text, hk, hvalue, glyphs_of_reads hdec hfresh] at hc
    exact (triviaEnds_of_regexp hpeek hstar hslashes hread hgs hc).2

/-- **A token of the right kind and value ends with its text.** -/
theorem readToken_back {exprAllowed : Bool} {t : Token} (ht : Lexeme exprAllowed t.kind t.value)
    (hbound : Bounded t.kind rest) (hc : c.rest = Utf8.glyphs (t.text ++ rest)) :
    TriviaEnds c ∧ ∀ u d, readToken exprAllowed c = .ok (u, d) → u.content = t.content →
      d.rest = Utf8.glyphs rest := by
  by_cases hstring : t.kind = .string
  · -- strings need nothing behind their quotes, but pairs of surrogates change their values
    obtain ⟨ns, hns, hvalue⟩ := ht.value_of_kind.1 hstring
    rw [Token.text, hstring, hvalue] at hc
    obtain ⟨hends, hrest⟩ := rest_of_readToken_string hns hc
    exact ⟨hends, fun u d hread _ => hrest u d hread⟩
  -- Either what follows cannot go on with the token, or the raw value tells where it ends, or the
  -- label does.
  rcases hbound with hsep | ⟨hkind, hfresh⟩ | ⟨p, hkind, hslash⟩
  · obtain ⟨hends, v, e, he, _, _, hrest⟩ :=
      (readsAs_text ht (fun hk => absurd hk hstring) hsep).2 c hc
    refine ⟨hends, fun u d hread _ => ?_⟩
    rw [he] at hread
    cases hread
    exact hrest
  · refine ⟨triviaEnds_of_raw ht hkind hfresh hc, fun u d hread hcontent => ?_⟩
    have htext : t.text = t.value := by
      unfold Token.text
      rcases hkind with hk | hk <;> rw [hk]
    have hkind' : u.kind = t.kind := congrArg Prod.fst hcontent
    obtain ⟨hreach, hvalue⟩ := (readToken_endsByKind hread).1 (hkind' ▸ hkind)
    rw [htext] at hc
    exact rest_of_textTo hc hreach (hvalue.symm.trans (congrArg Prod.snd hcontent))
  · obtain ⟨hp, hvalue⟩ := ht.value_of_kind.2.2 p hkind
    have htext : t.text = utf8 p.label := by
      rw [Token.text, hkind, hvalue]
      rfl
    rw [htext, glyphs_utf8_append p.ascii_label] at hc
    obtain ⟨_, _, _, _, hline, hspace⟩ := firstChar_class hp
    refine ⟨triviaEnds_of_peek? (peek?_of_label hc) hline hspace hslash,
      fun u d hread hcontent => ?_⟩
    have hkind' : u.kind = .punct p := (congrArg Prod.fst hcontent).trans hkind
    rw [(readToken_endsByKind hread).2 p hkind', advanceBy_rest, hc, p.label_length]
    exact List.drop_left' (by simp [charGlyphs])

/-! ## The start of a source -/

theorem startsPlain_blank_append {blank code : Bytes}
    (hblank : ∀ b ∈ blank, isBlankByte b = true) (hc : c.rest = Utf8.glyphs (blank ++ code))
    (h : blank = [] → StartsPlain c) : StartsPlain c := by
  cases blank with
  | nil => exact h rfl
  | cons b blank => exact startsPlain_blank (hblank b List.mem_cons_self) hc

/-- The text of a token can stand at the start of a source. -/
theorem startsPlain_text {exprAllowed : Bool} {t : Token}
    (ht : Lexeme exprAllowed t.kind t.value) (hbound : Bounded t.kind rest)
    (hc : c.rest = Utf8.glyphs (t.text ++ rest)) : StartsPlain c := by
  obtain ⟨hends, _⟩ := readToken_back ht hbound hc
  refine ⟨fun hmark => absurd (hends.space _ hmark) (by decide), fun hhash => ?_⟩
  obtain ⟨g, gs, hg, hstart⟩ := text_startsAs ht rest
  have hchar : g.char = '#' := by
    have hpeek := peek?_of_cons (hc.trans hg)
    rw [hhash.1] at hpeek
    exact (Option.some.inj hpeek).symm
  rw [hchar] at hstart
  by_cases hstring : t.kind = .string
  · rw [hstring] at hstart
    exact absurd hstart (show ('#' : Char) ≠ '\'' by decide)
  rcases hbound with hsep | ⟨hkind | hkind, _⟩ | ⟨p, hkind, _⟩
  · -- a token is read here, and none starts like that
    obtain ⟨_, u, d, hread, _⟩ := (readsAs_text ht (fun hk => absurd hk hstring) hsep).2 c hc
    exact readToken_hashbang hhash hread
  · rw [hkind] at hstart
    revert hstart
    show ¬ (isDigitIn 10 '#' = true ∨ '#' = '.')
    decide
  · rw [hkind] at hstart
    exact absurd hstart (show ('#' : Char) ≠ '/' by decide)
  · rw [hkind] at hstart
    have hnone : ∀ q : Punctuator, '#' ≠ q.firstChar := fun q => by cases q <;> decide
    exact hnone p hstart.1

/-! ## Runs that have succeeded -/

/-- A run in the situation `s` has given the tokens `ts`, where the rest of the source starts at
`c`; `newline` is what it has seen of the trivia it is in. -/
def Runs (fuel : Nat) (s : Situation) (prev : Kind) (newline : Bool) (c : Cursor)
    (ts : List Token) : Prop :=
  (if s.innermost = .template then collect (fuel + 1) ⟨c, prev, s, false, none⟩
    else resume fuel ⟨c, prev, s, false, none⟩ (readTrivia newline c)) = .ok ts

variable {s : Situation} {ts : List Token}

theorem runs_iff_resume (hs : s.innermost ≠ .template) : Runs fuel s prev newline c ts ↔
    resume fuel ⟨c, prev, s, false, none⟩ (readTrivia newline c) = .ok ts := by
  unfold Runs
  rw [if_neg hs]

theorem runs_of_collect (h : collect fuel ⟨c, prev, s, false, none⟩ = .ok ts) (hne : ts ≠ []) :
    ∃ m, Runs m s prev false c ts := by
  cases fuel with
  | zero =>
    cases h
    exact absurd rfl hne
  | succ m =>
    refine ⟨m, ?_⟩
    unfold Runs
    split
    next => exact h
    next hs => rw [← collect_succ_eq_resume rfl rfl hs, h]

theorem Runs.blanks {blank code : Bytes} (h : Runs fuel s prev newline c ts)
    (hs : s.innermost ≠ .template) (hblank : ∀ b ∈ blank, isBlankByte b = true)
    (hc : c.rest = Utf8.glyphs (blank ++ code)) :
    ∃ d, d.rest = Utf8.glyphs code ∧ SkipsTo c blank d
      ∧ Runs fuel s prev (newline || decide (0x0A ∈ blank)) d ts := by
  obtain ⟨d, hd, hskips, htrivia⟩ := readTrivia_blanks newline hblank hc
  rw [runs_iff_resume hs, htrivia] at h
  exact ⟨d, hd, hskips, (runs_iff_resume hs).mpr h⟩

/-- A comment is the first of the tokens. -/
theorem Runs.comment {t : Token} {newline' : Bool} (h : Runs fuel s prev newline c ts)
    (hs : s.innermost ≠ .template)
    (htrivia : readTrivia newline c = (readTrivia newline' d).withComment t) :
    ∃ ts', ts = t :: ts' ∧ Runs fuel s prev newline' d ts' := by
  rw [runs_iff_resume hs, htrivia, resume_withComment] at h
  cases hrun : resume fuel ⟨c, prev, s, false, none⟩ (readTrivia newline' d) with
  | error e =>
    rw [hrun] at h
    cases h
  | ok ts' =>
    rw [hrun] at h
    cases h
    exact ⟨ts', rfl, (runs_iff_resume hs).mpr hrun⟩

/-- Where trivia ends, a token is read. -/
theorem Runs.token (h : Runs fuel s prev newline c ts) (hs : s.innermost ≠ .template)
    (hends : TriviaEnds c) : ∃ u d, readToken s.exprAllowed c = .ok (u, d)
      ∧ (u.kind = .eof ∧ ts = [u] ∨ u.kind ≠ .eof ∧ ∃ ts', ts = u :: ts'
        ∧ collect fuel ⟨d, u.kind, { s with newlineBefore := newline }.after u.kind prev u.value,
          false, none⟩ = .ok ts') := by
  rw [runs_iff_resume hs, readTrivia_here hends, resume] at h
  dsimp only at h
  split at h
  next => cases h
  next u d hread =>
    refine ⟨u, d, hread, ?_⟩
    split at h
    next hk =>
      cases h
      exact Or.inl ⟨hk, rfl⟩
    next hk =>
      cases hrun : collect fuel ((⟨c, prev, s, false, none⟩ : Scanner).behind newline u d) with
      | error e =>
        rw [hrun] at h
        cases h
      | ok ts' =>
        rw [hrun] at h
        cases h
        exact Or.inr ⟨hk, ts', rfl, hrun⟩

/-- In a template literal, a chunk is read. -/
theorem Runs.chunk (h : Runs fuel s prev newline c ts) (hs : s.innermost = .template)
    (hprev : opensChunk prev = true) : ∃ d ts', ts = rawToken .template c d :: ts'
      ∧ readChunk c.position c = .ok d ∧ collect fuel ⟨d, .template,
        { s with exprAllowed := false, newlineBefore := false }, false, none⟩ = .ok ts' := by
  unfold Runs at h
  rw [if_pos hs] at h
  obtain ⟨t, ht, hcases⟩ := collect_succ_eq_ok.mp h
  obtain ⟨d, hchunk, rfl, hnext⟩ := next_template_ok rfl hs hprev ht
  rw [hnext] at hcases
  rcases hcases with ⟨hk, _⟩ | ⟨_, ts', hrun, rfl⟩
  · cases hk
  · exact ⟨d, ts', rfl, hchunk, hrun⟩

/-- Behind a chunk, its delimiter is read. -/
theorem collect_delimiter {p : Punctuator} {gs : List Glyph} (hs : s.innermost = .template)
    (hp : p = .backQuote ∨ p = .dollarBraceL) (hd : d.rest = charGlyphs p.label.toList ++ gs)
    (h : collect fuel ⟨d, .template, s, false, none⟩ = .ok ts) (hne : ts ≠ []) :
    ∃ m ts', ts = bareToken (.punct p) d (d.advanceBy p.label.length) :: ts'
      ∧ collect m ⟨d.advanceBy p.label.length, .punct p,
        { s with newlineBefore := false }.after (.punct p) .template [], false, none⟩ =
          .ok ts' := by
  obtain ⟨hend, hdelim⟩ := delimiter_complete hp hd
  cases fuel with
  | zero =>
    cases h
    exact absurd rfl hne
  | succ m =>
    obtain ⟨t, ht, hcases⟩ := collect_succ_eq_ok.mp h
    rw [next_delimiter (s := ⟨d, .template, s, false, none⟩) rfl hs rfl hend hdelim] at ht hcases
    cases ht
    rcases hcases with ⟨hk, _⟩ | ⟨_, ts', hrun, rfl⟩
    · cases hk
    · exact ⟨m, ts', rfl, hrun⟩

end ScriptTidy.Scanner
