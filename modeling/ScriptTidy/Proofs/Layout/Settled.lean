import ScriptTidy.Proofs.Layout.Fidelity
import ScriptTidy.Proofs.Layout.LineBreaks

/-!
# Formatting the output again

The output of the layout is formatted a second time. Two runs go along together: the first over
the tokens of a source, the second over the tokens that its output is read as. All that the
second run sees otherwise than the first are lines and columns, and those are the layout's own:
two tokens stand on different lines exactly if a line feed was written between them.

Tokens are then written as before. Comments are not always, for two reasons. A space was written
behind a comment because of what followed on its line, but the layout moved that to a new line
after all; the second run writes a line feed instead of the space. Or the comment has several
lines and stays behind a token, in another column than before; the second run moves its lines
again.

* `ReadBack` : the second tokens are read from what is written for the first.
* `CommentSettled`, `Settled` : no comment is written differently for one of these reasons.
* `commentSettled_iff` : one step. A comment that is not settled changes its text or what stands
  behind it.
* `bytes_readBack_iff` : the whole run. The second output is the first one exactly if all comments
  are settled.
-/

namespace ScriptTidy

open Scanner (fillsLine isComment_of_fillsLine HoldsCommentEnd)

/-- The state of a second run: the last token ends on the line `line`, and if it is a comment its
value is `value`. -/
def LayoutState.rereadAs (s : LayoutState) (value : Bytes) (line : Int) : LayoutState :=
  { s with
    last := s.last.map fun l => ⟨l.kind, if l.kind.isComment then value else l.value, line⟩ }

namespace Layout

/-! ## What is read back -/

/-- The value of a token as its text shows it. -/
def writtenValue (indent : Bytes) (level : Int) (t : Token) : Bytes :=
  if t.kind = .blockComment then reindent t.value t.start.column (indentation indent level)
  else t.value

/-- The token `t'` is read from the text that is written for `t` in the state `s`, behind the white
space `pending`, which starts at `start`. -/
structure ReadFrom (indent : Bytes) (s : LayoutState) (pending : Bytes) (start : Position)
    (next : Option Token) (t t' : Token) : Prop where
  kind : t'.kind = t.kind
  value : t'.value = writtenValue indent s.level t
  order : start.line ≤ t'.start.line
  line : start.line < t'.start.line ↔ 0x0A ∈ pending ++ (step indent s t next).1.gap.flatten
  column : t.kind = .blockComment → lastEndsOn s t.start.line = false →
    t'.start.column = ((indentation indent s.level).length : Int)
  startOffset :
    t'.start.offset = start.offset + (pending ++ (step indent s t next).1.gap.flatten).length
  stopOffset : t'.stop.offset = t'.start.offset + (step indent s t next).1.text.length

/-- The second tokens are read from what is written for the first ones in the state `s`, behind
the white space `pending`, which starts at `start`. -/
inductive ReadBack (indent : Bytes) : LayoutState → (pending : Bytes) → (start : Position) →
    List Token → List Token → Prop
  | token {s : LayoutState} {pending : Bytes} {start : Position} {t t' : Token}
    {rest rest' : List Token} (hne : t.kind ≠ .eof)
    (hread : ReadFrom indent s pending start rest.head? t t')
    (hrest : ReadBack indent (step indent s t rest.head?).2
      (step indent s t rest.head?).1.after.flatten t'.stop rest rest') :
    ReadBack indent s pending start (t :: rest) (t' :: rest')
  | eof {s : LayoutState} {pending : Bytes} {start : Position} {t t' : Token}
    (hkind : t.kind = .eof) (hkind' : t'.kind = .eof) (hline : start.line < t'.start.line) :
    ReadBack indent s pending start [t] [t']

/-! ## Comments that stay as they are -/

/-- The comment `t`, which was read back as `t'`, is written as before: what keeps it on its line
stays there, and behind a token its lines are not moved again. -/
def CommentSettled (indent : Bytes) (s : LayoutState) (t t' : Token) (next : Option Token) : Prop :=
  (isInline t next = true →
      ∀ n ∈ next, n.kind ≠ .eof ∧ Frame.dedents n.kind s.frames = false)
    ∧ (t.kind = .blockComment → lastEndsOn s t.start.line = true →
      reindent t'.value t'.start.column (indentation indent s.level) = t'.value)

/-- All comments among the first tokens are settled, where the second ones are read back. -/
def Settled (indent : Bytes) : LayoutState → List Token → List Token → Prop
  | s, t :: rest, t' :: rest' =>
    (t.isComment = true → CommentSettled indent s t t' rest.head?)
      ∧ Settled indent (step indent s t rest.head?).2 rest rest'
  | _, _, _ => True

variable {indent : Bytes} {s : LayoutState} {l t t' : Token} {next next' : Option Token}
variable {pending : Bytes} {start : Position} {rest rest' : List Token}

/-! ## Lines of the output -/

theorem kind_of_not_fillsLine (h : t.isComment = true) (hline : fillsLine t.kind ≠ true) :
    t.kind = .blockComment := by
  obtain ⟨kind, value, start, stop⟩ := t
  cases kind with
  | blockComment => rfl
  | lineComment => exact absurd rfl hline
  | hashbang => exact absurd rfl hline
  | _ => cases h

/-- **A comment stays on its line exactly if no line feed is written before it.** -/
theorem mem_commentGap_iff (hindent : IsBlank indent)
    (hb : Behind indent (some l) (some t) s pending) (ht : t.isComment = true)
    (hline : fillsLine l.kind = true → l.stop.line < t.start.line) :
    0x0A ∈ pending ++ (commentGap indent s t).flatten ↔ lastEndsOn s t.start.line = false := by
  cases hl : l.isComment with
  | true =>
    obtain ⟨hafter, rfl⟩ := hb.comment hl
    have hends : lastEndsOn s t.start.line = isInline l (some t) := by
      by_cases hfills : fillsLine l.kind = true
      · have hlt := hline hfills
        have hne : l.stop.line ≠ t.start.line := by omega
        have hkind : l.kind ≠ .blockComment := by
          intro hk
          rw [hk] at hfills
          cases hfills
        rw [lastEndsOn, hafter.last, isInline, Option.any_some,
          beq_eq_false_iff_ne.mpr (show l.stop.line ≠ _ from hne), beq_eq_false_iff_ne.mpr hkind,
          Bool.false_and]
      · simp [lastEndsOn, hafter.last, isInline, kind_of_not_fillsLine hl hfills, Bool.beq_comm]
    cases hin : isInline l (some t) with
    | true =>
      rw [hin] at hends
      refine iff_of_false ?_ (by rw [hends]; exact Bool.noConfusion)
      simpa using not_mem_commentGap hindent hends
    | false =>
      rw [hin] at hends
      exact iff_of_true (by simp) hends
  | false =>
    obtain ⟨kind, broke, hafter, rfl⟩ := hb.plain hl
    -- the line end behind a token waits exactly for a comment on its line
    have hwaits := hafter.commentFollows_eq
    rw [ht, Bool.true_and] at hwaits
    cases hends : lastEndsOn s t.start.line with
    | true =>
      rw [hafter.waits (hwaits.trans hends)]
      exact iff_of_false (not_mem_commentGap hindent hends) Bool.noConfusion
    | false =>
      refine iff_of_true ?_ rfl
      cases broke with
      | true => simp
      | false =>
        exact mem_commentGap (by rw [hafter.last]; rfl) hends
          (hafter.newline (hwaits.trans hends))

/-- Only closing brackets go back a level, and they open nothing. -/
theorem dedents_opened (kind : Kind) (arrayLiteral : Bool) (frames : List Frame) :
    Frame.dedents kind ((Frame.opened? kind arrayLiteral).toList ++ frames) =
      Frame.dedents kind frames := by
  cases kind with
  | punct p => cases p <;> rfl
  | _ => rfl

theorem dedents_effectiveKind (s : LayoutState) (t : Token) (frames : List Frame) :
    Frame.dedents (effectiveKind s t) frames = Frame.dedents t.kind frames := by
  rcases rememberedAs_effectiveKind s t with he | ⟨hk, he⟩
  · rw [he]
  · rw [he]
    obtain ⟨kind, value, start, stop⟩ := t
    cases kind with
    | keyword k => rfl
    | _ => cases hk

/-- What follows a comment on its line is written there, unless it goes back a level. -/
theorem mem_gap_behind_comment (next : Option Token) (hindent : IsBlank indent) {n : Token}
    (ht : t.isComment = true) (hn : n.kind ≠ .eof) :
    0x0A ∈ (step indent s t (some n)).1.after.flatten ++
        (step indent (step indent s t (some n)).2 n next).1.gap.flatten ↔
      ¬ (isInline t (some n) = true ∧ Frame.dedents n.kind s.frames = false) := by
  have hne : t.kind ≠ .eof := by
    intro he
    rw [Token.isComment_of_kind he] at ht
    cases ht
  have hb : Behind indent (some t) (some n) (step indent s t (some n)).2
      (step indent s t (some n)).1.after.flatten := .step hne
  have hframes : (step indent s t (some n)).2.frames = s.frames := by rw [step_comment ht]
  obtain ⟨hafter, hpending⟩ := hb.comment ht
  generalize (step indent s t (some n)).2 = s' at *
  rw [hpending]
  cases hin : isInline t (some n) with
  | false => exact iff_of_true (by simp) (fun h => Bool.noConfusion h.1)
  | true =>
    have hline : n.start.line = t.stop.line := by
      simp only [isInline, Option.any_some, Bool.and_eq_true, beq_iff_eq] at hin
      exact hin.2
    -- a comment never goes back a level, and a token starts no other line here
    cases hcomment : n.isComment with
    | true =>
      have hends : lastEndsOn s' n.start.line = true := by simp [lastEndsOn, hafter.last, hline]
      have hdedents : Frame.dedents n.kind s.frames = false := by
        obtain ⟨kind, value, start, stop⟩ := n
        cases kind with
        | punct p => cases hcomment
        | _ => rfl
      rw [step_comment hcomment]
      refine iff_of_false ?_ (fun h => h ⟨rfl, hdedents⟩)
      simpa using not_mem_commentGap hindent hends
    | false =>
      have hflag : s'.addedNewline = true ↔ (0x0A : UInt8) ∈ ([0x20] : Bytes) := by
        rw [hafter.newline, hin]
        simp
      have hlast : s'.last.map (·.kind) ≠ some (.punct .braceR) := by
        rw [hafter.last]
        intro he
        have hkind : t.kind = .punct .braceR := Option.some.inj he
        rw [Token.isComment_of_kind hkind] at ht
        cases ht
      rw [step_plain hcomment hn, if_pos rfl]
      refine (mem_gapBefore indent _ _ _ _ hflag).trans ?_
      rw [newline_gapOfKinds hlast, breaksLine, dedents_opened, dedents_effectiveKind, hframes,
        hafter.last, Rules.endsStatement_some, hafter.newline, hin]
      simp [hline]

/-! ## The second run sees the same neighbours -/

/-- Whether a comment stays with what follows it. -/
theorem isInline_readBack (hindent : IsBlank indent) (ht : t.isComment = true)
    (hkind : t'.kind = t.kind) (hr : ReadBack indent (step indent s t rest.head?).2
      (step indent s t rest.head?).1.after.flatten t'.stop rest rest') :
    isInline t' rest'.head? = true ↔ isInline t rest.head? = true
      ∧ ∀ n ∈ rest.head?, n.kind ≠ .eof ∧ Frame.dedents n.kind s.frames = false := by
  cases hr with
  | @token _ _ _ n n' rest rest' hne hread _ =>
    have horder := hread.order
    have hmem := mem_gap_behind_comment (s := s) rest.head? hindent ht hne
    -- the second scan sees the lines that were written
    have hsame : n'.start.line = t'.stop.line ↔
        isInline t (some n) = true ∧ Frame.dedents n.kind s.frames = false := by
      rw [← not_iff_not, ← hmem]
      refine Iff.trans ?_ hread.line
      omega
    show (t'.kind == .blockComment && n'.start.line == t'.stop.line) = true ↔
      isInline t (some n) = true ∧ ∀ m, some n = some m → _
    rw [hkind, Bool.and_eq_true, beq_iff_eq, beq_iff_eq, hsame]
    constructor
    · intro h
      refine ⟨h.2.1, fun m hm => ?_⟩
      cases hm
      exact ⟨hne, h.2.2⟩
    · intro h
      refine ⟨?_, h.1, (h.2 n rfl).2⟩
      exact beq_iff_eq.mp (Bool.and_eq_true_iff.mp h.1).1
  | @eof _ _ _ n n' hn _ hline =>
    refine iff_of_false ?_ (fun h => (h.2 n rfl).1 hn)
    have hne : n'.start.line ≠ t'.stop.line := by omega
    simp [isInline, hne]

/-- Whether a new line behind a token waits for a comment. -/
theorem commentFollows_readBack (hindent : IsBlank indent) (ht : t.isComment = false)
    (hne : t.kind ≠ .eof) (hr : ReadBack indent (step indent s t rest.head?).2
      (step indent s t rest.head?).1.after.flatten t'.stop rest rest') :
    commentFollows t' rest'.head? = commentFollows t rest.head? := by
  cases hr with
  | @token _ _ _ n n' rest rest' _ hread _ =>
    have horder := hread.order
    have hline := hread.line
    have hb : Behind indent (some t) (some n) (step indent s t (some n)).2
        (step indent s t (some n)).1.after.flatten := .step hne
    obtain ⟨kind, broke, hafter, _⟩ := hb.plain ht
    have hcomment : n'.isComment = n.isComment := Token.isComment_of_kind hread.kind
    show (n'.isComment && n'.start.line == t'.stop.line) = _
    rw [show commentFollows t (n :: rest).head? = _ from hafter.commentFollows_eq, hcomment]
    cases hn : n.isComment with
    | false => rfl
    | true =>
      -- both comments follow on the line exactly if the gap in front of them holds no line feed
      have hfills : fillsLine t.kind = true → t.stop.line < n.start.line := by
        intro hf
        rw [Token.isComment, isComment_of_fillsLine hf] at ht
        cases ht
      have hmem := mem_commentGap_iff hindent hb hn hfills
      rw [step_comment hn] at hline
      rw [Bool.true_and, Bool.true_and, Bool.eq_iff_iff, beq_iff_eq, ← Bool.not_eq_false, ← hmem]
      refine Iff.trans ?_ (not_congr hline)
      omega
  | @eof _ _ _ n n' hn hn' _ =>
    have hcomment : n.isComment = false ∧ n'.isComment = false := by
      rw [Token.isComment, Token.isComment, hn, hn']
      exact ⟨rfl, rfl⟩
    rw [commentFollows_eq_false (fun m hm => by cases hm; exact hcomment.2),
      commentFollows_eq_false (fun m hm => by cases hm; exact hcomment.1)]

/-! ## Steps of the second run -/

section Reread

variable (value : Bytes) (line : Int)

theorem last_kind_rereadAs (s : LayoutState) :
    (s.rereadAs value line).last.map (·.kind) = s.last.map (·.kind) := by
  simp [LayoutState.rereadAs, Function.comp_def]

theorem lastEndsOn_rereadAs (s : LayoutState) (x : Int) :
    lastEndsOn (s.rereadAs value line) x = (s.last.isSome && line == x) := by
  cases h : s.last with
  | none => simp [lastEndsOn, LayoutState.rereadAs, h]
  | some l => simp [lastEndsOn, LayoutState.rereadAs, h]

theorem effectiveKind_rereadAs (s : LayoutState) (h : t'.kind = t.kind) :
    effectiveKind (s.rereadAs value line) t' = effectiveKind s t := by
  unfold effectiveKind LayoutState.rereadAs
  rw [h]
  simp [Option.any_map]

theorem isArrayLiteral_rereadAs (s : LayoutState) (kind : Kind) :
    Rules.isArrayLiteral kind (s.rereadAs value line).last = Rules.isArrayLiteral kind s.last := by
  unfold Rules.isArrayLiteral LayoutState.rereadAs
  cases s.last with
  | none => rfl
  | some l => rfl

/-- No rule looks at the text of a comment. -/
theorem endsStatement_rereadAs (s : LayoutState) (kind : Kind) (x : Int) :
    Rules.endsStatement kind x (s.rereadAs value line).last =
      Rules.endsStatement kind x (s.endedOn line).last := by
  unfold LayoutState.rereadAs LayoutState.endedOn
  cases s.last with
  | none => rfl
  | some l =>
    cases hc : l.kind.isComment with
    | false => simp [Rules.endsStatement_some, Rules.endsAtBreak, hc]
    | true =>
      have hname : l.kind ≠ .name := by
        intro hk
        rw [hk] at hc
        cases hc
      simp [Rules.endsStatement_some, Rules.endsAtBreak, hname]

theorem gapBefore_rereadAs (s : LayoutState) (kind : Kind) (x : Int) (frames : List Frame)
    (level : Int) : gapBefore indent (s.rereadAs value line) kind x frames level =
      gapBefore indent (s.endedOn line) kind x frames level := by
  have hneeds : Rules.needsSpace kind (s.rereadAs value line).last =
      Rules.needsSpace kind (s.endedOn line).last := by
    unfold Rules.needsSpace LayoutState.rereadAs LayoutState.endedOn
    cases s.last with
    | none => rfl
    | some l => rfl
  unfold gapBefore
  dsimp only
  rw [last_kind_rereadAs, last_kind_endedOn, endsStatement_rereadAs, hneeds]
  rfl

/-- **A token is written as before.** -/
theorem plain_rereadAs {kind : Kind} (hkind : kind.isComment = false) (hvalue : t'.value = t.value)
    (hwaits : commentFollows t' next' = commentFollows t next)
    (hpending : s.addedNewline = true ↔ 0x0A ∈ pending)
    (h : line < t'.start.line ↔ 0x0A ∈ pending ++ (plain indent s t kind next).1.gap.flatten) :
    (plain indent (s.rereadAs value line) t' kind next').1.bytes =
        (plain indent s t kind next).1.bytes
      ∧ (plain indent (s.rereadAs value line) t' kind next').2 =
        (plain indent s t kind next).2.rereadAs t'.value t'.stop.line := by
  have htext : Token.text { t' with kind := kind } = Token.text { t with kind := kind } := by
    simp [Token.text, hvalue]
  have hgap := gapBefore_endedOn hpending fun l _ => Or.inr h
  rw [← gapBefore_rereadAs value line] at hgap
  simp only [plain, isArrayLiteral_rereadAs, hwaits, Emission.bytes]
  refine ⟨?_, ?_⟩
  · rw [htext]
    exact congrArg (fun gap => List.flatten gap ++ _ ++ _) hgap
  · simp [LayoutState.rereadAs, remember, hkind, hvalue]

/-- **The white space before a comment is written as before.** -/
theorem commentGap_rereadAs (hkind : t'.kind = t.kind)
    (h : s.last.isSome = true → (line = t'.start.line ↔ lastEndsOn s t.start.line = true)) :
    commentGap indent (s.rereadAs value line) t' = commentGap indent s t := by
  have hends : lastEndsOn (s.rereadAs value line) t'.start.line = lastEndsOn s t.start.line := by
    rw [lastEndsOn_rereadAs]
    cases hlast : s.last with
    | none => simp [lastEndsOn, hlast]
    | some l =>
      rw [Option.isSome_some, Bool.true_and, Bool.eq_iff_iff, beq_iff_eq]
      exact h (by rw [hlast]; rfl)
  have hsome : (s.rereadAs value line).last.isSome = s.last.isSome := by
    simp [LayoutState.rereadAs]
  unfold commentGap separator
  rw [hends, hsome, hkind]
  rfl

/-- Behind a comment that goes on as before, so does the run. -/
theorem comment_rereadAs (ht : t.isComment = true) (hkind : t'.kind = t.kind)
    (hinline : isInline t' next' = isInline t next) :
    (step indent (s.rereadAs value line) t' next').2 =
      (step indent s t next).2.rereadAs t'.value t'.stop.line := by
  have ht' : t'.isComment = true := by rw [Token.isComment, hkind]; exact ht
  have hcomment : t.kind.isComment = true := ht
  rw [step_comment ht', step_comment ht, hinline, hkind]
  simp [LayoutState.rereadAs, remember, hcomment]

end Reread

/-! ## Comments of the second run -/

theorem bytes_step_comment (ht : t.isComment = true) :
    (step indent s t next).1.bytes = (commentGap indent s t).flatten ++
      (commentText indent s.level t ++ if isInline t next then [0x20] else [0x0A]) := by
  rw [step_comment ht, Emission.bytes, List.append_assoc, List.flatten_singleton]

theorem commentText_eq_of_kind (hkind : t'.kind = t.kind) (hk : t.kind ≠ .blockComment)
    (hvalue : t'.value = t.value) (level : Int) :
    commentText indent level t' = commentText indent level t := by
  obtain ⟨kind, value, start, stop⟩ := t
  obtain ⟨kind', value', start', stop'⟩ := t'
  cases hkind
  cases hvalue
  cases kind with
  | blockComment => exact absurd rfl hk
  | _ => rfl

theorem commentText_eq_iff (hkind : t'.kind = t.kind) (hk : t.kind = .blockComment) (level : Int) :
    commentText indent level t' = commentText indent level t ↔
      reindent t'.value t'.start.column (indentation indent level) =
        reindent t.value t.start.column (indentation indent level) := by
  rw [commentText, commentText, hkind, hk]
  dsimp only
  rw [List.append_left_inj, List.append_right_inj]

/-- **A comment is written as before exactly if it is settled.** -/
theorem commentSettled_iff (hindent : IsBlank indent) (ht : t.isComment = true)
    (hread : ReadFrom indent s pending start rest.head? t t')
    (hr : ReadBack indent (step indent s t rest.head?).2
      (step indent s t rest.head?).1.after.flatten t'.stop rest rest') :
    CommentSettled indent s t t' rest.head? ↔
      commentText indent s.level t' = commentText indent s.level t
        ∧ isInline t' rest'.head? = isInline t rest.head? := by
  have hinline := isInline_readBack hindent ht hread.kind hr
  have hstays : (isInline t rest.head? = true → ∀ n ∈ rest.head?, n.kind ≠ .eof
      ∧ Frame.dedents n.kind s.frames = false) ↔
      isInline t' rest'.head? = isInline t rest.head? := by
    refine Iff.trans ?_ Bool.eq_iff_iff.symm
    rw [hinline]
    exact ⟨fun h => ⟨And.left, fun hin => ⟨hin, h hin⟩⟩, fun h hin => (h.mpr hin).2⟩
  have htext : (t.kind = .blockComment → lastEndsOn s t.start.line = true →
      reindent t'.value t'.start.column (indentation indent s.level) = t'.value) ↔
      commentText indent s.level t' = commentText indent s.level t := by
    have hvalue := hread.value
    unfold writtenValue at hvalue
    by_cases hk : t.kind = .blockComment
    · rw [if_pos hk] at hvalue
      rw [commentText_eq_iff hread.kind hk, ← hvalue]
      refine ⟨fun h => ?_, fun h _ _ => h⟩
      cases hends : lastEndsOn s t.start.line with
      | true => exact h hk hends
      | false =>
        -- the comment starts where its lines were moved to
        rw [hread.column hk hends, hvalue]
        exact reindent_reindent (hindent.indentation s.level) _ _
    · rw [if_neg hk] at hvalue
      exact iff_of_true (fun h => absurd h hk) (commentText_eq_of_kind hread.kind hk hvalue _)
  exact (and_congr hstays htext).trans And.comm

/-- A comment and the byte behind it can be told from the output. -/
theorem comment_eq_of_bytes_eq (hindent : IsBlank indent) (hkind : t'.kind = t.kind)
    (hvalue : t'.value = writtenValue indent s.level t)
    (hclosed : t.kind = .blockComment → ¬ HoldsCommentEnd t.value) {x y : Bytes}
    (h : commentText indent s.level t' ++ ((if isInline t' next' then [0x20] else [0x0A]) ++ x) =
      commentText indent s.level t ++ ((if isInline t next then [0x20] else [0x0A]) ++ y)) :
    commentText indent s.level t' = commentText indent s.level t
      ∧ isInline t' next' = isInline t next := by
  have htext : commentText indent s.level t' = commentText indent s.level t := by
    unfold writtenValue at hvalue
    by_cases hk : t.kind = .blockComment
    · have hend := (hindent.indentation s.level).ne_star
      -- neither text holds its end, so that both end at the first one
      have hfirst : ¬ HoldsCommentEnd (reindent t.value t.start.column _) :=
        not_holdsCommentEnd_reindent hend (hclosed hk)
      rw [if_pos hk] at hvalue
      have hsecond : ¬ HoldsCommentEnd (reindent t'.value t'.start.column _) :=
        not_holdsCommentEnd_reindent hend (hvalue ▸ hfirst)
      rw [commentText_eq_iff hkind hk]
      rw [commentText, commentText, hkind, hk] at h
      dsimp only at h
      rw [List.append_assoc, List.append_assoc, List.append_assoc, List.append_assoc,
        List.append_cancel_left_eq] at h
      exact eq_of_append_commentEnd hsecond hfirst h
    · rw [if_neg hk] at hvalue
      exact commentText_eq_of_kind hkind hk hvalue _
  refine ⟨htext, ?_⟩
  rw [htext, List.append_cancel_left_eq] at h
  have hbyte : ∀ b : Bool, (if b then [0x20] else [0x0A] : Bytes) = [if b then 0x20 else 0x0A] := by
    intro b
    cases b <;> rfl
  rw [hbyte, hbyte, List.singleton_append, List.singleton_append] at h
  have hhead := (List.cons.inj h).1
  cases hin : isInline t' next' <;> cases hin' : isInline t next <;> rw [hin, hin'] at hhead <;>
    first | rfl | cases hhead

/-! ## Both runs -/

section Both

variable {last : Option Token} (hindent : IsBlank indent)
  (hread : ReadFrom indent s pending start rest.head? t t')
  (hrest : ReadBack indent (step indent s t rest.head?).2
    (step indent s t rest.head?).1.after.flatten t'.stop rest rest')
  (hb : Behind indent last (some t) s pending) (value : Bytes)
include hindent hread hrest hb

/-- A token goes on as before. -/
theorem step_token_rereadAs (hc : t.isComment = false) (hne : t.kind ≠ .eof) :
    (step indent (s.rereadAs value start.line) t' rest'.head?).1.bytes =
        (step indent s t rest.head?).1.bytes
      ∧ (step indent (s.rereadAs value start.line) t' rest'.head?).2 =
        (step indent s t rest.head?).2.rereadAs t'.value t'.stop.line := by
  have hline := hread.line
  have hcomment' : t'.isComment = false := (Token.isComment_of_kind hread.kind).trans hc
  have hk : t.kind ≠ .blockComment := by
    intro hk
    rw [Token.isComment_of_kind hk] at hc
    cases hc
  have hkind' : (effectiveKind s t).isComment = false := by
    rcases rememberedAs_effectiveKind s t with he | ⟨_, he⟩
    · rw [he]
      exact hc
    · rw [he]
      rfl
  have hvalue : t'.value = t.value := by rw [hread.value, writtenValue, if_neg hk]
  have hwaits := commentFollows_readBack hindent hc hne hrest
  rw [step_plain hc hne] at hline
  rw [step_plain hcomment' (hread.kind ▸ hne), step_plain hc hne,
    effectiveKind_rereadAs value start.line s hread.kind]
  exact plain_rereadAs value start.line hkind' hvalue hwaits (hb.addedNewline_iff hc) hline

variable (hc : t.isComment = true)
  (hline : ∀ l ∈ last, fillsLine l.kind = true → l.stop.line < t.start.line)
include hc

omit hb in
/-- A settled comment goes on as before. -/
theorem CommentSettled.step_rereadAs (h : CommentSettled indent s t t' rest.head?) :
    (step indent (s.rereadAs value start.line) t' rest'.head?).2 =
      (step indent s t rest.head?).2.rereadAs t'.value t'.stop.line := by
  have hsettled := commentSettled_iff hindent hc hread hrest
  exact comment_rereadAs value start.line hc hread.kind (hsettled.mp h).2

include hline

/-- What is written for a comment, and what follows it, is the same exactly if the comment is
settled and what follows is the same. -/
theorem bytes_comment_rereadAs (hclosed : t.kind = .blockComment → ¬ HoldsCommentEnd t.value)
    {x y : Bytes} : (step indent (s.rereadAs value start.line) t' rest'.head?).1.bytes ++ x =
        (step indent s t rest.head?).1.bytes ++ y ↔
      CommentSettled indent s t t' rest.head? ∧ x = y := by
  have hcomment' : t'.isComment = true := (Token.isComment_of_kind hread.kind).trans hc
  have hsettled := commentSettled_iff hindent hc hread hrest
  have horder := hread.order
  have hlines := hread.line
  rw [step_comment hc] at hlines
  -- the comment stands on the line of the last token in the output exactly if it did before
  have hends : s.last.isSome = true →
      (start.line = t'.start.line ↔ lastEndsOn s t.start.line = true) := by
    intro hsome
    cases last with
    | none =>
      cases hb
      cases hsome
    | some l =>
      have hmem := mem_commentGap_iff hindent hb hc (hline l rfl)
      rw [← Bool.not_eq_false, ← hmem, ← hlines]
      omega
  rw [bytes_step_comment hcomment', bytes_step_comment hc,
    commentGap_rereadAs value start.line hread.kind hends,
    show (s.rereadAs value start.line).level = s.level from rfl, List.append_assoc,
    List.append_assoc, List.append_assoc, List.append_assoc, List.append_right_inj, hsettled]
  constructor
  · intro heq
    obtain ⟨htext, hinline⟩ := comment_eq_of_bytes_eq hindent hread.kind hread.value hclosed heq
    rw [htext, hinline, List.append_right_inj, List.append_right_inj] at heq
    exact ⟨⟨htext, hinline⟩, heq⟩
  · rintro ⟨⟨htext, hinline⟩, heq⟩
    rw [htext, hinline, heq]

end Both

/-- Only the end of the source may stand on the line of a comment that fills it. -/
def LeavesLine (a b : Token) : Prop :=
  fillsLine a.kind = true → a.stop.line < b.start.line ∨ b.kind = .eof

/-- **The output is written again exactly if all comments are settled.** -/
theorem bytes_readBack_iff {tokens tokens' : List Token} {last : Option Token}
    (hindent : IsBlank indent) (h : ReadBack indent s pending start tokens tokens')
    (hb : Behind indent last tokens.head? s pending)
    (hfirst : ∀ l ∈ last, ∀ t ∈ tokens.head?, LeavesLine l t)
    (hlines : tokens.IsChain LeavesLine)
    (hclosed : ∀ t ∈ tokens, t.kind = .blockComment → ¬ HoldsCommentEnd t.value) (value : Bytes) :
    (emissionsFrom indent (s.rereadAs value start.line) tokens').flatMap Emission.bytes =
        (emissionsFrom indent s tokens).flatMap Emission.bytes ↔
      Settled indent s tokens tokens' := by
  induction h generalizing last value with
  | @token s pending start t t' rest rest' hne hread hrest ih =>
    have hih := ih (Behind.step (s := s) hne)
      (by rintro l ⟨⟩; exact (List.isChain_cons.mp hlines).1) hlines.tail
      (fun u hu => hclosed u (List.mem_cons_of_mem t hu)) t'.value
    rw [Settled, emissionsFrom, emissionsFrom, List.flatMap_cons, List.flatMap_cons]
    cases hc : t.isComment with
    | false =>
      obtain ⟨hbytes, hstate⟩ := step_token_rereadAs hindent hread hrest hb value hc hne
      rw [hbytes, hstate, List.append_right_inj, hih]
      exact ⟨fun h => ⟨fun hn => (by cases hn), h⟩, And.right⟩
    -- only comments can be written differently, and only unsettled ones are
    | true =>
      have hline : ∀ l ∈ last, fillsLine l.kind = true → l.stop.line < t.start.line :=
        fun l hl hf => (hfirst l hl t rfl hf).resolve_right hne
      rw [bytes_comment_rereadAs hindent hread hrest hb value hc hline
        (hclosed t List.mem_cons_self), imp_iff_right rfl]
      refine and_congr_right fun hsettled => ?_
      rw [hsettled.step_rereadAs hindent hread hrest value hc, hih]
  | @eof s pending start t t' hkind hkind' _ =>
    have hc : t.isComment = false := Token.isComment_of_kind hkind
    rw [Settled, bytes_emissionsFrom_cons, bytes_emissionsFrom_cons, step_eof hkind,
      step_eof hkind']
    refine iff_of_true rfl ⟨fun hn => ?_, by simp [Settled]⟩
    rw [hc] at hn
    cases hn

end Layout

end ScriptTidy
