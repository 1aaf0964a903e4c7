import ScriptTidy.Layout.Format
import ScriptTidy.Proofs.Layout.Reindent
import ScriptTidy.Proofs.Layout.Separation
import ScriptTidy.Proofs.Layout.Steps
import ScriptTidy.Proofs.Scanner.Spells

/-!
# Formatting keeps the tokens

What the layout writes for the tokens of a source is read as the same tokens. The proof goes
along the stream with the scanner's situation on one side and the layout's state on the other,
and shows that the output spells the tokens in the sense of `Scanner.Spells`. Two things have to
be watched: that texts without white space between them do not join, and that line ends which
decide how a brace or a function is taken are where they were.

* `separated_next` : no text runs into what is written behind it.
* `newline_commentGap`, `newline_gapBefore` : where it matters, the output has a line end between
  two tokens exactly if the source has one.
* `spells_emissions` : the run lemma.
* `tokenize_format` : formatted sources scan as the tokens of the source.
-/

namespace ScriptTidy

open Scanner

/-- The words that a regular expression on the same line takes for its flags. `in` and
`instanceof` are operators, and `else` always has a space before it. -/
def Kind.looksLikeFlags : Kind → Bool
  | .name | .num => true
  | .keyword k => k != .inKw && k != .instanceofKw && k != .elseKw
  | _ => false

/-- The second token would be read as a part of the first, or with the white space in front of
it. -/
def Token.Glues (a b : Token) : Prop :=
  a.kind.glued b.kind = true
    ∨ (a.kind = .regexp ∧ b.kind.looksLikeFlags = true ∧ a.stop.line = b.start.line)
    ∨ (a.kind = .punct .parenR ∧ b.kind = .template)

instance (a b : Token) : Decidable (a.Glues b) := inferInstanceAs (Decidable (_ ∨ _ ∨ _))

namespace Layout

variable {indent : Bytes} {s : LayoutState} {l t : Token} {next : Option Token} {pending : Bytes}
variable {seen newline : Bool}

/-! ## White space -/

/-- The indentation is made of spaces and tabs. -/
def IsBlank (indent : Bytes) : Prop := ∀ b ∈ indent, b = 0x20 ∨ b = 0x09

theorem IsBlank.indentation (h : IsBlank indent) (level : Int) :
    IsBlank (indentation indent level) := fun b hb => h b (mem_indentation hb)

theorem IsBlank.newline_not_mem (h : IsBlank indent) : 0x0A ∉ indent := by
  intro hmem
  rcases h _ hmem with he | he <;> cases he

theorem IsBlank.ne_star (h : IsBlank indent) : ∀ b ∈ indent, b ≠ 0x2A := by
  intro b hb
  rcases h b hb with rfl | rfl <;> decide

theorem isBlankByte_of_isPiece (hindent : IsBlank indent) {piece : Bytes}
    (h : IsPiece indent piece) : ∀ b ∈ piece, isBlankByte b = true := by
  intro b hb
  rcases h with rfl | rfl | ⟨level, rfl⟩
  · rw [List.mem_singleton.mp hb]
    rfl
  · rw [List.mem_singleton.mp hb]
    rfl
  · rcases hindent.indentation level b hb with rfl | rfl
    · rfl
    · rfl

theorem isBlankByte_flatten (hindent : IsBlank indent) {gap : List Bytes}
    (h : ∀ piece ∈ gap, IsPiece indent piece) : ∀ b ∈ gap.flatten, isBlankByte b = true := by
  intro b hb
  obtain ⟨piece, hpiece, hb⟩ := List.mem_flatten.mp hb
  exact isBlankByte_of_isPiece hindent (h piece hpiece) b hb

theorem Behind.blank {last : Option Token} (h : Behind indent last next s pending) :
    ∀ b ∈ pending, isBlankByte b = true := by
  intro b hb
  rcases h.pending_cases with rfl | rfl | rfl
  · cases hb
  · rw [List.mem_singleton.mp hb]
    rfl
  · rw [List.mem_singleton.mp hb]
    rfl

/-- What is written between two tokens or comments is white space. -/
theorem isBlankByte_step (hindent : IsBlank indent) {last next' : Option Token}
    (hb : Behind indent last next' s pending) (t : Token) (next : Option Token) :
    ∀ b ∈ pending ++ (step indent s t next).1.gap.flatten, isBlankByte b = true := by
  intro b hmem
  rcases List.mem_append.mp hmem with hmem | hmem
  · exact hb.blank b hmem
  · exact isBlankByte_flatten hindent (isPiece_step t next) b hmem

/-- Behind the last token there is white space with a line feed. -/
theorem isBlankByte_eof {last : Option Token} (hb : Behind indent last (some t) s pending)
    (ht : t.kind = .eof) :
    (∀ b ∈ pending ++ (emissionsFrom indent s [t]).flatMap Emission.bytes, isBlankByte b = true)
      ∧ 0x0A ∈ pending ++ (emissionsFrom indent s [t]).flatMap Emission.bytes := by
  have hflag := hb.addedNewline_iff (Token.isComment_of_kind ht)
  have hcode : (emissionsFrom indent s [t]).flatMap Emission.bytes =
      if s.addedNewline then [] else [0x0A] := by
    rw [bytes_emissionsFrom_cons, step_eof ht]
    cases s.addedNewline
    · rfl
    · rfl
  rw [hcode]
  by_cases hadded : s.addedNewline = true
  · rw [if_pos hadded, List.append_nil]
    exact ⟨hb.blank, hflag.mp hadded⟩
  · rw [if_neg hadded]
    refine ⟨fun b hmem => ?_, List.mem_append_right _ (List.mem_singleton_self _)⟩
    rcases List.mem_append.mp hmem with hmem | hmem
    · exact hb.blank b hmem
    · rw [List.mem_singleton.mp hmem]
      rfl

/-! ## Line ends -/

theorem newline_of_isInline (h : isInline l (some t) = true)
    (hf : Follows (some l) seen t newline) : newline = seen := by
  simp only [isInline, Option.any_some, Bool.and_eq_true, beq_iff_eq] at h
  rw [hf.newline rfl, breaksAfter, Option.any_some, h.2]
  simp

theorem newline_of_not_isInline (hl : l.isComment = true) (hhash : l.kind ≠ .hashbang)
    (ht : t.kind ≠ .eof) (h : isInline l (some t) = false)
    (hf : Follows (some l) seen t newline) : newline = true := by
  have hcases : l.kind = .blockComment ∨ l.kind = .lineComment := by
    unfold Token.isComment Kind.isComment at hl
    split at hl
    next hk => exact Or.inr hk
    next hk => exact Or.inl hk
    next hk => exact absurd hk hhash
    next => cases hl
  rcases hcases with hk | hk
  · have hne : t.start.line ≠ l.stop.line := by simpa [isInline, hk] using h
    have hle := hf.order l rfl
    rw [hf.newline rfl, breaksAfter, Option.any_some, decide_eq_true (by omega), Bool.or_true]
  · have hlt := (hf.lineComment l rfl (by rw [hk]; rfl)).resolve_right ht
    rw [hf.newline rfl, breaksAfter, Option.any_some, decide_eq_true hlt, Bool.or_true]

/-- A comment that stays on the line has no line end before it. -/
theorem not_mem_commentGap (hindent : IsBlank indent) (h : lastEndsOn s t.start.line = true) :
    (0x0A : UInt8) ∉ (commentGap indent s t).flatten := by
  intro hmem
  unfold commentGap separator at hmem
  rw [if_pos h, if_pos h] at hmem
  split at hmem
  · simp at hmem
  · rw [List.flatten_append, List.mem_append, List.flatten_singleton,
      List.flatten_singleton] at hmem
    rcases hmem with hmem | hmem
    · simp at hmem
    · exact (hindent.indentation _).newline_not_mem hmem

/-- Any other comment has one, unless it was written behind the token before. -/
theorem mem_commentGap (hlast : s.last.isSome = true) (hends : lastEndsOn s t.start.line = false)
    (hnewline : s.addedNewline = false) : (0x0A : UInt8) ∈ (commentGap indent s t).flatten := by
  refine List.mem_flatten.mpr ⟨[0x0A], separator_subset ?_, List.mem_singleton.mpr rfl⟩
  unfold separator
  rw [hends, hlast, hnewline]
  exact List.mem_singleton.mpr rfl

/-- **The output has a line end before a comment exactly if the source has one** since the last
token. -/
theorem newline_commentGap (hindent : IsBlank indent)
    (hb : Behind indent (some l) (some t) s pending) (ht : t.isComment = true)
    (hhash : l.kind ≠ .hashbang) (hf : Follows (some l) seen t newline) :
    newline = (seen || decide (0x0A ∈ pending ++ (commentGap indent s t).flatten)) := by
  have hne : t.kind ≠ .eof := by
    intro he
    rw [Token.isComment_of_kind he] at ht
    cases ht
  cases hl : l.isComment with
  | true =>
    obtain ⟨hafter, rfl⟩ := hb.comment hl
    cases hin : isInline l (some t) with
    | true =>
      have hends : lastEndsOn s t.start.line = true := by
        simp only [isInline, Option.any_some, Bool.and_eq_true, beq_iff_eq] at hin
        simp [lastEndsOn, hafter.last, hin.2]
      rw [newline_of_isInline hin hf, if_pos rfl,
        decide_eq_false (by simpa using not_mem_commentGap hindent hends), Bool.or_false]
    | false =>
      rw [newline_of_not_isInline hl hhash hne hin hf, if_neg Bool.false_ne_true,
        decide_eq_true (by simp), Bool.or_true]
  | false =>
    obtain ⟨kind, broke, hafter, rfl⟩ := hb.plain hl
    have hle := hf.order l rfl
    have hwaits := hafter.commentFollows_eq
    rw [ht, Bool.true_and] at hwaits
    rw [hf.newline rfl, breaksAfter, Option.any_some]
    cases hends : lastEndsOn s t.start.line with
    | true =>
      -- the comment stays on the line, and a line end behind the token has waited for it
      have hline : l.stop.line = t.start.line := by simpa [lastEndsOn, hafter.last] using hends
      rw [hafter.waits (hwaits.trans hends), decide_eq_false (by omega),
        decide_eq_false (by simpa using not_mem_commentGap hindent hends)]
    | false =>
      have hline : l.stop.line ≠ t.start.line := by simpa [lastEndsOn, hafter.last] using hends
      rw [decide_eq_true (show l.stop.line < t.start.line by omega)]
      cases broke with
      | true => simp
      | false =>
        have hmem : (0x0A : UInt8) ∈ (commentGap indent s t).flatten :=
          mem_commentGap (by rw [hafter.last]; rfl) hends (hafter.newline (hwaits.trans hends))
        rw [decide_eq_true (List.mem_append_right _ hmem)]

/-- The kinds for which a line end decides how they are taken can start a statement. -/
theorem startsStatement_of_newlineDecides {kind prev : Kind}
    (h : newlineDecides kind prev = true) (frames : List Frame) :
    kind ≠ .eof ∧ Frame.dedents kind frames = false ∧ Rules.cannotStartStatement kind = false := by
  simp only [newlineDecides, Bool.and_eq_true, Bool.or_eq_true, decide_eq_true_eq] at h
  rcases h.1 with (rfl | rfl) | rfl <;> exact ⟨Kind.noConfusion, rfl, rfl⟩

/-- Behind a token at whose end a line end may decide, a statement ends at every line end. -/
theorem mem_gapBefore_plain {kind prev : Kind} {frames : List Frame} {level : Int}
    (hafter : AfterPlain l (some t) s kind false) (ht : t.isComment = false)
    (hkind : kind = .keyword .returnKw ∨ kind = .name)
    (hdecides : newlineDecides t.kind prev = true) :
    0x0A ∈ (gapBefore indent s t.kind t.start.line frames level).flatten ↔
      l.stop.line < t.start.line := by
  obtain ⟨_, hdedents, hstarts⟩ := startsStatement_of_newlineDecides hdecides frames
  have hbreak : Rules.endsAtBreak t.kind ⟨kind, l.value, l.stop.line⟩ = true := by
    unfold Rules.endsAtBreak
    rcases hkind with rfl | rfl
    · rfl
    · rw [hstarts]
      exact Bool.or_true _
  have hbrace : kind ≠ .punct .braceR := by
    rcases hkind with rfl | rfl <;> exact Kind.noConfusion
  exact mem_gapBefore_endsAtBreak hafter.last hbrace (hafter.addedNewline ht) hdedents hbreak

/-- Behind a comment that stays on the line of the token, no new line is started. -/
theorem not_mem_gapBefore_inline {prev : Kind} {frames : List Frame} {level : Int}
    (hafter : AfterComment l (some t) s) (hl : l.isComment = true)
    (hin : isInline l (some t) = true) (hdecides : newlineDecides t.kind prev = true) :
    (0x0A : UInt8) ∉ [0x20] ++ (gapBefore indent s t.kind t.start.line frames level).flatten := by
  obtain ⟨_, hdedents, _⟩ := startsStatement_of_newlineDecides hdecides frames
  have hline : t.start.line = l.stop.line := by
    simp only [isInline, Option.any_some, Bool.and_eq_true, beq_iff_eq] at hin
    exact hin.2
  have hflag : s.addedNewline = true ↔ (0x0A : UInt8) ∈ ([0x20] : Bytes) := by
    rw [hafter.newline, hin]
    simp
  have hlast : s.last.map (·.kind) ≠ some (.punct .braceR) := by
    rw [hafter.last]
    intro he
    have hkind : l.kind = .punct .braceR := Option.some.inj he
    rw [Token.isComment_of_kind hkind] at hl
    cases hl
  rw [mem_gapBefore indent t.kind t.start.line frames level hflag, newline_gapOfKinds hlast,
    breaksLine, hdedents, hafter.last, Rules.endsStatement_some, hafter.newline, hin]
  simp [hline]

/-- **Where a line end decides how a token is taken, the output has one before it exactly if the
source has one** since the last token. -/
theorem newline_gapBefore {prev : Kind} {frames : List Frame} {level : Int}
    (hb : Behind indent (some l) (some t) s pending) (ht : t.isComment = false)
    (hprev : l.isComment = false → l.kind = prev) (hhash : l.kind ≠ .hashbang)
    (hdecides : newlineDecides t.kind prev = true) (hf : Follows (some l) seen t newline) :
    newline = (seen || decide (0x0A ∈ pending ++
      (gapBefore indent s (effectiveKind s t) t.start.line frames level).flatten)) := by
  obtain ⟨hne, _⟩ := startsStatement_of_newlineDecides hdecides frames
  -- Behind a token it is the rules that start a line, behind a comment it is the comment, unless
  -- the two stay together.
  cases hl : l.isComment with
  | false =>
    obtain ⟨kind, broke, hafter, rfl⟩ := hb.plain hl
    have hkind : kind = .keyword .returnKw ∨ kind = .name := by
      simp only [newlineDecides, Bool.and_eq_true, Bool.or_eq_true, decide_eq_true_eq] at hdecides
      rcases hafter.remembered with he | ⟨_, he⟩
      · rw [he, hprev hl]
        exact hdecides.2
      · exact Or.inr he
    -- nothing that decides ends its own line
    have hbroke : broke = false := by
      rw [← Bool.not_eq_true]
      intro hbr
      have hends := hafter.mayEnd hbr
      rcases hkind with rfl | rfl <;> cases hends
    subst hbroke
    have heff : effectiveKind s t = t.kind := by
      refine effectiveKind_of_last hafter.last ?_
      rcases hkind with rfl | rfl <;> exact Kind.noConfusion
    rw [hf.newline rfl, breaksAfter, Option.any_some, heff]
    exact congrArg (seen || ·)
      (decide_eq_decide.mpr (mem_gapBefore_plain hafter ht hkind hdecides).symm)
  | true =>
    obtain ⟨hafter, rfl⟩ := hb.comment hl
    have heff : effectiveKind s t = t.kind := by
      refine effectiveKind_of_last hafter.last fun hk => ?_
      rw [Token.isComment_of_kind hk] at hl
      cases hl
    cases hin : isInline l (some t) with
    | true =>
      rw [newline_of_isInline hin hf, heff, if_pos rfl,
        decide_eq_false (not_mem_gapBefore_inline hafter hl hin hdecides), Bool.or_false]
    | false =>
      rw [newline_of_not_isInline hl hhash hne hin hf, decide_eq_true (by simp), Bool.or_true]

/-! ## What stands behind a text -/

theorem separated_blank {kind : Kind} {b : UInt8} {code : Bytes} (hb : isBlankByte b = true) :
    Separated kind (b :: code) := by
  have hascii := ascii_of_isBlankByte hb
  have hclass : partOfName (Char.ofNat b.toNat) = false ∧ (Char.ofNat b.toNat == '.') = false
      ∧ (Char.ofNat b.toNat == '\\') = false
      ∧ ∀ p : Punctuator, p.extendedBy (Char.ofNat b.toNat) = false := by
    rcases isBlankByte_cases hb with rfl | rfl | rfl
    all_goals exact ⟨by decide, by decide, by decide, fun p => by cases p <;> rfl⟩
  have hstops : ∀ {p : Char → Bool}, p (Char.ofNat b.toNat) = false →
      Cursor.Stops p (Utf8.glyphs (b :: code)) := by
    intro p hp
    rw [Utf8.glyphs_ascii_cons hascii]
    exact Cursor.stops_cons hp
  have hfresh : Utf8.Fresh (b :: code) := Utf8.fresh_cons (Utf8.isTail_of_ascii hascii)
  unfold Separated
  split
  next => trivial
  next p => exact hstops (hclass.2.2.2 p)
  next => exact ⟨hfresh, hstops hclass.1, hstops hclass.2.1⟩
  next => exact ⟨hfresh, hstops hclass.1⟩
  next => exact ⟨hstops hclass.1, hstops hclass.2.2.1⟩

theorem separated_of_blank {kind : Kind} {blank code : Bytes} (hne : blank ≠ [])
    (hblank : ∀ b ∈ blank, isBlankByte b = true) : Separated kind (blank ++ code) := by
  obtain ⟨b, blank, rfl⟩ := List.exists_cons_of_ne_nil hne
  exact separated_blank (hblank b List.mem_cons_self)

/-- What looks like flags can start a statement. -/
theorem cannotStartStatement_of_looksLikeFlags {kind : Kind} (h : kind.looksLikeFlags = true) :
    Rules.cannotStartStatement kind = false := by
  cases kind with
  | name => rfl
  | num => rfl
  | keyword k =>
    revert h
    cases k <;> decide
  | _ => cases h

/-- Words that would join a regular expression, but do not look like its flags. -/
theorem keyword_of_joins_regexp {kind : Kind} (h : Kind.joins .regexp kind = true)
    (hflags : ¬ kind.looksLikeFlags = true) :
    kind = .keyword .inKw ∨ kind = .keyword .instanceofKw ∨ kind = .keyword .elseKw := by
  cases kind with
  | name => exact absurd rfl hflags
  | num => exact absurd rfl hflags
  | keyword k =>
    revert hflags
    cases k <;> decide
  | _ => cases h

/-- A word behind a regular expression is kept apart from it. -/
theorem joins_regexp {value : Bytes} {line level : Int} {frames : List Frame}
    (hlast : s.last = some ⟨.regexp, value, line⟩) (hnewline : s.addedNewline = false)
    (hspace : s.addedSpace = false)
    (hline : t.kind.looksLikeFlags = true → line < t.start.line)
    (h : (gapBefore indent s t.kind t.start.line frames level).flatten = []) :
    Kind.joins .regexp t.kind = false := by
  obtain ⟨hneeds, hbreaks, hpieces⟩ := gapBefore_eq_nil hnewline hspace h
  rw [← Bool.not_eq_true]
  intro hj
  -- Words on a new line end the statement there; `in`, `instanceof` and `else` get a space.
  by_cases hflags : t.kind.looksLikeFlags = true
  · have hbreak : Rules.endsAtBreak t.kind ⟨.regexp, value, line⟩ = true := by
      rw [Rules.endsAtBreak, cannotStartStatement_of_looksLikeFlags hflags]
      exact Bool.or_true _
    rw [breaksLine, hlast, Rules.endsStatement_some, hbreak,
      decide_eq_true (show line < t.start.line from hline hflags)] at hbreaks
    cases hbreaks
  · rw [hlast] at hneeds
    rcases keyword_of_joins_regexp hj hflags with hk | hk | hk
    · rw [hk] at hneeds
      cases hneeds
    · rw [hk] at hneeds
      cases hneeds
    · -- the rule for `else` asks for a space
      rw [gapOfKinds, hk, hlast] at hpieces
      have hif : (Kind.keyword .elseKw = .keyword .elseKw
          ∧ ((some (⟨.regexp, value, line⟩ : LastToken)).map (·.kind)).isSome = true
          ∧ (some (⟨.regexp, value, line⟩ : LastToken)).map (·.kind) ≠ some (.punct .braceR)
          ∧ (some (⟨.regexp, value, line⟩ : LastToken)).map (·.kind) ≠ some (.punct .dot)) :=
        ⟨rfl, rfl, by rintro ⟨⟩, by rintro ⟨⟩⟩
      rw [if_pos hif] at hpieces
      exact absurd hpieces (List.append_ne_nil_of_right_ne_nil _ (List.cons_ne_nil _ _))

/-- **Texts with nothing between them do not join**, unless they are among the pairs that glue. -/
theorem joins_eq_false_of_gap {kind : Kind} {level : Int} {frames : List Frame}
    (hafter : AfterPlain l (some t) s kind false) (hnewline : s.addedNewline = false)
    (hl : l.kind.isComment = false ∧ l.kind ≠ .eof ∧ l.kind ≠ .template) (hglue : ¬ l.Glues t)
    (hle : l.stop.line ≤ t.start.line)
    (hgap : (gapBefore indent s (effectiveKind s t) t.start.line frames level).flatten = []) :
    l.kind.joins t.kind = false := by
  by_cases hregexp : l.kind = .regexp
  · -- only the line end tells a word from the flags of the regular expression
    have hlast := hafter.last
    rw [hafter.remembered.eq (by rw [hregexp]; rfl), hregexp] at hlast
    rw [effectiveKind_of_last hlast Kind.noConfusion] at hgap
    rw [hregexp]
    refine joins_regexp hlast hnewline hafter.space (fun hflags => ?_) hgap
    have hne : l.stop.line ≠ t.start.line := fun he =>
      hglue (Or.inr (Or.inl ⟨hregexp, hflags, he⟩))
    omega
  · rw [← Bool.not_eq_true]
    intro hj
    have hneeds := needsSpace_of_joins ⟨kind, l.value, l.stop.line⟩
      hafter.remembered (rememberedAs_effectiveKind s t) hl hregexp hj
      (Bool.eq_false_iff.mpr fun hg => hglue (Or.inl hg))
    rw [← hafter.last, (gapBefore_eq_nil hnewline hafter.space hgap).1] at hneeds
    cases hneeds

/-- **No text runs into what is written behind it.** -/
theorem separated_next {exprAllowed : Bool} {situation : Situation} {rest : List Token}
    (hindent : IsBlank indent) (h : Lexed situation l.kind (some l) false rest)
    (hb : Behind indent (some l) rest.head? s pending) (hl : Lexeme exprAllowed l.kind l.value)
    (hglue : ∀ u ∈ rest.head?, ¬ l.Glues u) :
    Separated l.kind (pending ++ (emissionsFrom indent s rest).flatMap Emission.bytes) := by
  obtain ⟨hcomment, hkinds⟩ := hl.ordinary
  obtain ⟨kind, broke, hafter, rfl⟩ := hb.plain hcomment
  -- a line that was ended separates anything; else it is up to what comes next
  cases broke with
  | true => exact separated_blank rfl
  | false =>
    show Separated l.kind ((emissionsFrom indent s rest).flatMap Emission.bytes)
    cases h with
    | @comment _ _ _ _ u rest newline _ hu _ _ =>
      rw [bytes_emissionsFrom_cons, step_comment hu.isComment.1]
      exact separated_of_blank (commentGap_ne_nil fun hnil => hb.pending_ne_nil hnil rfl)
        (isBlankByte_flatten hindent isPiece_commentGap)
    | chunk _ hprev =>
      rcases opensChunk_iff.mp hprev with he | he | he
      all_goals
        rw [he]
        intro g _
        rfl
    | @token _ _ _ _ u rest newline _ hu hline _ =>
      have hucomment := hu.ordinary.1
      have hnewline : s.addedNewline = false := hafter.addedNewline hucomment
      rw [bytes_emissionsFrom_cons, step_plain hucomment hu.ordinary.2.1]
      by_cases hgap : (plain indent s u (effectiveKind s u) rest.head?).1.gap.flatten = []
      · rw [hgap, List.nil_append]
        have htext : (plain indent s u (effectiveKind s u) rest.head?).1.text = u.text :=
          text_effectiveKind s (value_ne_nil_of_isKeyword hu)
        rw [htext]
        obtain ⟨g, r, hg, hstarts⟩ := text_startsAs hu
          ((plain indent s u (effectiveKind s u) rest.head?).1.after.flatten ++
            (emissionsFrom indent (plain indent s u (effectiveKind s u) rest.head?).2
              rest).flatMap Emission.bytes)
        exact separated_of_startsAs hg hstarts hu.ordinary
          (joins_eq_false_of_gap hafter hnewline ⟨hcomment, hkinds⟩ (hglue u rfl)
            (hline.order l rfl) hgap)
      · exact separated_of_blank hgap (isBlankByte_flatten hindent isPiece_gapBefore)
    | @eof _ _ _ _ u newline _ hu _ _ =>
      have hucomment : u.isComment = false := Token.isComment_of_kind hu
      have hnewline : s.addedNewline = false := hafter.addedNewline hucomment
      rw [bytes_emissionsFrom_cons, step_eof hu, hnewline]
      exact separated_blank rfl

/-! ## Runs -/

/-- What is left of a token in the output: the texts of block comments are not promised. -/
def KeptAs (t : Token) (item : Kind × Bytes) : Prop :=
  item.1 = t.kind ∧ (t.kind ≠ .blockComment → item.2 = t.value)

/-- Tokens that can be told apart without the white space of the source, and whose strings can be
written. -/
structure Writable (tokens : List Token) : Prop where
  unglued : tokens.IsChain fun a b => ¬ a.Glues b
  strings : ∀ t ∈ tokens, t.kind = .string → ¬ HasSurrogatePair t.value

theorem Writable.tail {rest : List Token} (h : Writable (t :: rest)) : Writable rest :=
  ⟨h.unglued.tail, fun u hu => h.strings u (List.mem_cons_of_mem t hu)⟩

theorem Writable.head {rest : List Token} (h : Writable (t :: rest)) :
    ∀ u ∈ rest.head?, ¬ t.Glues u := (List.isChain_cons.mp h.unglued).1

/-- What is known of the last token: `prev` is its kind unless it is a comment, and a comment
line of the kind for first lines is first. -/
structure LastOf (last : Option Token) (prev : Kind) : Prop where
  kind : ∀ l, last = some l → l.isComment = false → l.kind = prev
  hashbang : ∀ l, last = some l → l.kind = .hashbang → prev = .eof
  start : last = none → prev = .eof

theorem lastOf_token (h : t.isComment = false) : LastOf (some t) t.kind where
  kind l hl _ := by cases hl; rfl
  hashbang l hl hk := by
    cases hl
    rw [Token.isComment_of_kind hk] at h
    cases h
  start h := by cases h

theorem lastOf_comment {prev : Kind} (ht : CommentText t.kind t.value) : LastOf (some t) prev where
  kind l hl hk := by
    cases hl
    rw [ht.isComment.1] at hk
    cases hk
  hashbang l hl hk := by
    cases hl
    rcases ht with ⟨he, _⟩ | ⟨he, _⟩ <;> rw [he] at hk <;> cases hk
  start hl := by cases hl

/-- The flag of the text before a comment is that of the stream, unless nothing was read yet. -/
theorem LastOf.flag_comment {last : Option Token} {prev : Kind} {flag : Bool}
    (h : LastOf last prev) (hindent : IsBlank indent)
    (hb : Behind indent last (some t) s pending) (ht : t.isComment = true)
    (hnewline : prev ≠ .eof → newline = seen) (hf : Follows last seen t flag)
    (hprev : prev ≠ .eof) :
    flag = (newline || decide (0x0A ∈ pending ++ (commentGap indent s t).flatten)) := by
  cases last with
  | none => exact absurd (h.start rfl) hprev
  | some l =>
    rw [hnewline hprev]
    exact newline_commentGap hindent hb ht (fun hk => hprev (h.hashbang l rfl hk)) hf

/-- The flag of the text before a token is that of the stream, where it decides anything. -/
theorem LastOf.flag_token {last : Option Token} {prev : Kind} {flag : Bool}
    (h : LastOf last prev) (hb : Behind indent last (some t) s pending)
    (ht : t.isComment = false) (hne : t.kind ≠ .eof) (hnewline : prev ≠ .eof → newline = seen)
    (hf : Follows last seen t flag) (hdecides : newlineDecides t.kind prev = true) :
    flag = (newline || decide (0x0A ∈ pending ++ (step indent s t next).1.gap.flatten)) := by
  have hprev : prev ≠ .eof := by
    rintro rfl
    simp [newlineDecides] at hdecides
  cases last with
  | none => exact absurd (h.start rfl) hprev
  | some l =>
    rw [hnewline hprev, step_plain ht hne]
    exact newline_gapBefore hb ht (h.kind l rfl) (fun hk => hprev (h.hashbang l rfl hk)) hdecides hf

section Steps

variable {situation : Situation} {prev : Kind} {last : Option Token} {items : List (Kind × Bytes)}
variable {code : Bytes} {flag : Bool} (hindent : IsBlank indent)
include hindent

/-- The step for a comment: what it is followed by spells `items`. -/
theorem spells_comment (hs : situation.innermost ≠ .template) (ht : CommentText t.kind t.value)
    (hb : Behind indent last (some t) s pending)
    (hflag : flag = (newline || decide (0x0A ∈ pending ++ (commentGap indent s t).flatten)))
    (h : Spells situation prev (flag || (t.kind == .blockComment && holdsLineEnd t.value)) items
      ((step indent s t next).1.after.flatten ++ code)) :
    ∃ v, KeptAs t (t.kind, v) ∧ Spells situation prev newline ((t.kind, v) :: items)
      (pending ++ ((step indent s t next).1.gap.flatten ++ ((step indent s t next).1.text ++
        ((step indent s t next).1.after.flatten ++ code)))) := by
  have hcomment := ht.isComment.1
  have hblank := isBlankByte_step hindent hb t next
  rw [step_comment hcomment] at h hblank ⊢
  dsimp only at h ⊢
  rw [List.flatten_singleton] at h ⊢
  rw [← List.append_assoc]
  -- a line comment is written as it is, while the lines of a block comment move
  rcases ht with ⟨hk, hv⟩ | ⟨hk, hv⟩
  · have hinline : isInline t next = false := by simp [isInline, hk]
    rw [hk, hinline] at h
    refine ⟨t.value, ⟨rfl, fun _ => rfl⟩, spells_blank_append hs hblank ?_⟩
    rw [← hflag, commentText, hk, hinline]
    refine .lineComment hs hv ?_
    rw [show (Kind.lineComment == .blockComment) = false from rfl, Bool.false_and,
      Bool.or_false] at h
    exact h
  · rw [hk] at h
    refine ⟨reindent t.value t.start.column (indentation indent s.level),
      ⟨rfl, fun hn => absurd hk hn⟩, spells_blank_append hs hblank ?_⟩
    rw [← hflag, commentText, hk]
    have hend := (hindent.indentation s.level).ne_star
    refine .blockComment hs (not_holdsCommentEnd_reindent hend hv) ?_
    rw [holdsLineEnd_reindent]
    simpa using h

/-- The step for a token of ordinary code. -/
theorem spells_token (hs : situation.innermost ≠ .template)
    (ht : Lexeme situation.exprAllowed t.kind t.value)
    (hpair : t.kind = .string → ¬ HasSurrogatePair t.value)
    (hb : Behind indent last (some t) s pending)
    (hflag : newlineDecides t.kind prev = true → flag = (newline || decide (0x0A ∈ pending ++
      (step indent s t next).1.gap.flatten)))
    (hsep : Separated t.kind ((step indent s t next).1.after.flatten ++ code))
    (h : Spells ({ situation with newlineBefore := flag }.after t.kind prev t.value) t.kind false
      items ((step indent s t next).1.after.flatten ++ code)) :
    Spells situation prev newline ((t.kind, t.value) :: items)
      (pending ++ ((step indent s t next).1.gap.flatten ++ ((step indent s t next).1.text ++
        ((step indent s t next).1.after.flatten ++ code)))) := by
  obtain ⟨hcomment, hne, _⟩ := ht.ordinary
  rw [← List.append_assoc, text_step hcomment hne (value_ne_nil_of_isKeyword ht)]
  refine spells_blank_append hs (isBlankByte_step hindent hb t next)
    (.token hs hne (readsAs_text ht hpair hsep) ?_)
  exact h.congr (sameScope_after _ _ fun hdecides => hflag hdecides)

end Steps

/-- The step for the text of a template literal and what ends it. -/
theorem spells_chunk {situation : Situation} {p : Punctuator} {items : List (Kind × Bytes)}
    {code : Bytes} {u : Token} (hs : situation.innermost = .template)
    (hl : opensChunk l.kind = true) (hglue : ¬ l.Glues t) (ht : t.kind = .template)
    (hstart : t.start = l.stop) (hu : u.kind = .punct p) (hvalue : u.value = [])
    (hstop : u.start = t.stop) (hchunk : Chunk t.value p)
    (hb : Behind indent (some l) (some t) s pending)
    (h : Spells ({ situation with exprAllowed := false, newlineBefore := false }.after (.punct p)
      .template []) (.punct p) false items code) :
    Spells situation l.kind newline ((.template, t.value) :: (.punct p, []) :: items)
      (pending ++ ((step indent s t (some u)).1.gap.flatten ++ ((step indent s t (some u)).1.text ++
        ((step indent s t (some u)).1.after.flatten ++
          ((step indent (step indent s t (some u)).2 u next).1.gap.flatten ++
            ((step indent (step indent s t (some u)).2 u next).1.text ++ code)))))) := by
  have hopens : l.kind = .punct .backQuote ∨ l.kind = .punct .braceR :=
    (or_assoc.mpr (opensChunk_iff.mp hl)).resolve_right fun he =>
      hglue (Or.inr (Or.inr ⟨he, ht⟩))
  -- nothing is written around the text
  obtain ⟨rfl, hgap, htext, hafter, hgap', htext'⟩ := hb.chunk (hopens.imp id Or.inl) ht hstart
    hchunk.delimiter hu hvalue hstop next
  rw [if_neg (by rcases hopens with ho | ho <;> rw [ho] <;> exact fun he => by cases he)] at hgap
  rw [hgap, htext, hafter, hgap', htext']
  simp only [List.flatten_nil, List.nil_append]
  rw [← List.append_assoc]
  refine .chunk hs (fun he => ?_) hchunk h
  rcases hopens with ho | ho <;> rw [ho] at he <;> cases he

/-- **The output spells the tokens.** The flag of the text is that of the stream, except before
the first token, where it decides nothing. -/
theorem spells_emissions {situation : Situation} {prev : Kind} {last : Option Token}
    {tokens : List Token} (hindent : IsBlank indent)
    (h : Lexed situation prev last seen tokens) (hw : Writable tokens)
    (hfirst : ∀ l ∈ last, ∀ t ∈ tokens.head?, ¬ l.Glues t) (hlast : LastOf last prev)
    (hb : Behind indent last tokens.head? s pending) (hnewline : prev ≠ .eof → newline = seen) :
    ∃ items, List.Forall₂ KeptAs tokens items
      ∧ Spells situation prev newline items
        (pending ++ (emissionsFrom indent s tokens).flatMap Emission.bytes) := by
  induction h generalizing s pending newline with
  | @comment situation prev last seen t rest flag hs ht hline hrest ih =>
    obtain ⟨hcomment, hne⟩ := ht.isComment
    have hflag : prev ≠ .eof →
        (newline || decide (0x0A ∈ pending ++ (commentGap indent s t).flatten)
          || (t.kind == .blockComment && holdsLineEnd t.value)) =
        (flag || (t.kind == .blockComment && holdsLineEnd t.value)) :=
      fun hprev => by rw [← hlast.flag_comment hindent hb hcomment hnewline hline hprev]
    obtain ⟨items, hitems, hspells⟩ := ih hw.tail (by rintro l ⟨⟩; exact hw.head)
      (lastOf_comment ht) (Behind.step (s := s) hne) hflag
    obtain ⟨v, hv, hstep⟩ := spells_comment hindent hs ht hb rfl hspells
    refine ⟨(t.kind, v) :: items, .cons hv hitems, ?_⟩
    rw [bytes_emissionsFrom_cons]
    exact hstep
  | @chunk situation prev l seen t u p rest hs hprev hl ht hstart hu hvalue hstop hchunk hrest ih =>
    subst hl
    have hne : u.kind ≠ .eof := by rw [hu]; exact Kind.noConfusion
    have hucomment : u.isComment = false := Token.isComment_of_kind hu
    have hnext := lastOf_token hucomment
    rw [hu] at hnext
    obtain ⟨items, hitems, hspells⟩ := ih hw.tail.tail (by rintro k ⟨⟩; exact hw.tail.head) hnext
      (Behind.step (s := (step indent s t (some u)).2) hne) (fun _ => Eq.refl false)
    refine ⟨(.template, t.value) :: (.punct p, []) :: items, .cons ⟨ht.symm, fun _ => rfl⟩
      (.cons ⟨hu.symm, fun _ => hvalue.symm⟩ hitems), ?_⟩
    rw [bytes_emissionsFrom_cons, bytes_emissionsFrom_cons]
    exact spells_chunk hs hprev (hfirst l rfl t rfl) ht hstart hu hvalue hstop hchunk hb hspells
  | @token situation prev last seen t rest flag hs ht hline hrest ih =>
    obtain ⟨hcomment, hne, _⟩ := ht.ordinary
    obtain ⟨items, hitems, hspells⟩ := ih hw.tail (by rintro l ⟨⟩; exact hw.head)
      (lastOf_token hcomment) (Behind.step (s := s) hne) (fun _ => Eq.refl false)
    -- What follows is known to spell the rest; it must not run into this text either.
    have hsep := separated_next hindent hrest (Behind.step (s := s) hne) ht hw.head
    refine ⟨(t.kind, t.value) :: items, .cons ⟨rfl, fun _ => rfl⟩ hitems, ?_⟩
    rw [bytes_emissionsFrom_cons]
    exact spells_token hindent hs ht (hw.strings t List.mem_cons_self) hb
      (hlast.flag_token hb hcomment hne hnewline hline) hsep hspells
  | @eof situation prev last seen t flag hs ht hvalue hline =>
    refine ⟨[(.eof, [])], .cons ⟨ht.symm, fun _ => hvalue.symm⟩ .nil, ?_⟩
    rw [← List.append_nil (pending ++ _)]
    exact spells_blank_append hs (isBlankByte_eof hb ht).1 (.eof hs)

/-! ## Whole sources -/

theorem keptAs_content {tokens tokens' : List Token}
    (h : List.Forall₂ KeptAs tokens (tokens'.map Token.content)) :
    List.Forall₂ (fun t t' : Token => t'.kind = t.kind
      ∧ (t.kind ≠ .blockComment → t'.value = t.value)) tokens tokens' := by
  rw [List.forall₂_map_right_iff] at h
  exact h

theorem isBlankByte_leading {o : Options} : ∀ b ∈ leading o, isBlankByte b = true := by
  intro b hb
  unfold leading at hb
  split at hb
  · rw [List.mem_singleton.mp hb]
    rfl
  · cases hb

end Layout

/-- **Formatting keeps the tokens.** A formatted source is accepted, and its tokens and comments
have the kinds of the source's in the same order; the values are the same too, except for block
comments, whose lines move. -/
theorem tokenize_format (o : Options) {source : Bytes} {tokens : List Token}
    (h : tokenize source = .ok tokens) (hindent : ∀ b ∈ o.indent, b = 0x20 ∨ b = 0x09)
    (hleading : o.leadingNewline = true → ∀ t ∈ tokens.head?, t.kind ≠ .hashbang)
    (hglue : tokens.IsChain fun a b => ¬ a.Glues b)
    (hstrings : ∀ t ∈ tokens, t.kind = .string → ¬ HasSurrogatePair t.value) :
    ∃ f tokens', format o source = .ok f ∧ tokenize f.code = .ok tokens'
      ∧ List.Forall₂ (fun t t' : Token => t'.kind = t.kind
        ∧ (t.kind ≠ .blockComment → t'.value = t.value)) tokens tokens' := by
  have hw : Layout.Writable tokens := ⟨hglue, hstrings⟩
  refine ⟨formatTokens o tokens, ?_⟩
  suffices hcode : ∃ tokens', tokenize (formatTokens o tokens).code = .ok tokens'
      ∧ List.Forall₂ Layout.KeptAs tokens (tokens'.map Token.content) by
    obtain ⟨tokens', htokens, hkept⟩ := hcode
    exact ⟨tokens', by rw [format, h], htokens, Layout.keptAs_content hkept⟩
  have hsource := tokenize_lexed h
  have hformat := Layout.code_formatTokens (o := o) hsource
  -- a comment line at the start is scanned on its own, everything behind it alike
  cases hsource with
  | plain hlexed =>
    have hflag : Kind.eof ≠ .eof → o.leadingNewline = false := fun hn => absurd rfl hn
    obtain ⟨items, hitems, hspells⟩ := Layout.spells_emissions hindent hlexed hw
      (fun l hl => by cases hl)
      ⟨fun l hl => (by cases hl), fun l hl => (by cases hl), fun _ => rfl⟩ .start hflag
    have hcode : Spells {} .eof false items (formatTokens o tokens).code := by
      rw [hformat]
      refine spells_blank_append (show Context.block ≠ .template by decide)
        Layout.isBlankByte_leading ?_
      unfold Layout.leading
      cases hlead : o.leadingNewline with
      | false => rwa [hlead] at hspells
      | true => rwa [hlead] at hspells
    obtain ⟨tokens', rfl, htokens⟩ := tokenize_of_spells hcode
    exact ⟨tokens', htokens, hitems⟩
  | @hashbang t rest ht hvalue hlexed =>
    have hcomment : t.isComment = true := Token.isComment_of_kind ht
    have hne : t.kind ≠ .eof := by rw [ht]; exact Kind.noConfusion
    have hlead : o.leadingNewline = false := by
      rw [← Bool.not_eq_true]
      exact fun hl => hleading hl t rfl ht
    have hinline : Layout.isInline t rest.head? = false := by simp [Layout.isInline, ht]
    have hb : Layout.Behind o.indent (some t) rest.head? _ _ := .step (s := {}) hne
    obtain ⟨items, hitems, hspells⟩ := Layout.spells_emissions hindent hlexed hw.tail
      (by rintro l ⟨⟩; exact hw.head)
      ⟨fun l hl hk => (by cases hl; rw [hcomment] at hk; cases hk), fun _ _ _ => rfl,
        fun hl => (by cases hl)⟩ hb (fun _ => Eq.refl false)
    rw [Layout.step_comment hcomment, hinline] at hspells
    obtain ⟨tokens', hcontent, htokens⟩ := tokenize_of_hashbang hvalue hspells
    refine ⟨tokens', ?_, by rw [hcontent]; exact .cons ⟨ht.symm, fun _ => rfl⟩ hitems⟩
    rw [← htokens]
    congr 1
    rw [hformat, Layout.leading, hlead, Layout.bytes_emissionsFrom_cons,
      Layout.step_comment hcomment, hinline, Layout.commentGap, if_pos ht, Layout.commentText, ht]
    rfl

theorem tokenize_format_regexp :
    ∃ f tokens', format { indent := utf8 "  " } (utf8 "/b/\nc//d") = .ok f
      ∧ tokenize f.code = .ok tokens'
      ∧ List.Forall₂ (fun t t' : Token => t'.kind = t.kind
        ∧ (t.kind ≠ .blockComment → t'.value = t.value))
        [⟨.regexp, utf8 "/b/", ⟨1, 0, 0⟩, ⟨1, 3, 3⟩⟩, ⟨.name, utf8 "c", ⟨2, 0, 4⟩, ⟨2, 1, 5⟩⟩,
          ⟨.lineComment, utf8 "d", ⟨2, 1, 5⟩, ⟨2, 4, 8⟩⟩, ⟨.eof, [], ⟨2, 4, 8⟩, ⟨2, 4, 8⟩⟩]
        tokens' :=
  tokenize_format _ (by decide +kernel)
    (fun _ hb => Or.inl (List.eq_of_mem_replicate (show _ ∈ List.replicate 2 0x20 from hb)))
    (fun h => by cases h) (by decide) (by simp)

end ScriptTidy
