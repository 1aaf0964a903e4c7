import ScriptTidy.Layout.Basic
import ScriptTidy.Proofs.Layout.Gap
import ScriptTidy.Proofs.Scanner.Lexed

/-!
# Steps of the layout

What one step leaves behind: the remembered token, the flags, and the white space that was
written behind the token. A new line behind a token that waits for a comment is the only place
where flags and white space disagree.

* `AfterPlain`, `AfterComment` : the state behind a token and behind a comment.
* `Behind` : the states that a run can be in, with the last token and the white space behind it.
* `code_formatTokens`, `mappings_formatTokens` : the output for the tokens of a source, whose end is
  not assumed.
-/

namespace ScriptTidy.Layout

variable {indent : Bytes} {s : LayoutState}

/-! ## Which step it is -/

theorem effectiveKind_eq_eof {t : Token} : effectiveKind s t = .eof ↔ t.kind = .eof := by
  unfold effectiveKind
  split
  next h =>
    constructor
    · intro h'
      cases h'
    · intro h'
      simp [h', Kind.isKeyword, Kind.keyword?] at h
  next => exact Iff.rfl

theorem step_eof {t : Token} {next : Option Token} (h : t.kind = .eof) :
    step indent s t next =
      ({ after := if s.addedNewline then [] else [[0x0A]] },
        { s with last := remember t .eof }) := by
  have hc : t.isComment = false := by simp [Token.isComment, h, Kind.isComment]
  simp [step, hc, effectiveKind_eq_eof.mpr h]

theorem step_plain {t : Token} {next : Option Token} (hc : t.isComment = false)
    (h : t.kind ≠ .eof) :
    step indent s t next = plain indent s t (effectiveKind s t) next := by
  have hk : effectiveKind s t ≠ .eof := fun h' => h (effectiveKind_eq_eof.mp h')
  simp [step, hc, hk]

theorem commentFollows_eq_false {t : Token} {next : Option Token}
    (h : ∀ n, next = some n → n.isComment = false) : commentFollows t next = false := by
  unfold commentFollows
  cases next with
  | none => rfl
  | some n => simp [h n rfl]

/-- Without comments, the flag of the state says what was written behind the token. -/
theorem addedNewline_plain {t : Token} {kind : Kind} {next : Option Token}
    (h : ∀ n, next = some n → n.isComment = false) :
    (plain indent s t kind next).2.addedNewline = true ↔
      0x0A ∈ (plain indent s t kind next).1.after.flatten := by
  simp only [plain, commentFollows_eq_false h]
  split
  · simp_all
  · simp_all

/-- The comment is followed on its last line. -/
def isInline (t : Token) (next : Option Token) : Bool :=
  t.kind == .blockComment && next.any fun n => n.start.line == t.stop.line

/-- What keeps a comment apart from the token before it. -/
def separator (s : LayoutState) (t : Token) : List Bytes :=
  if lastEndsOn s t.start.line then [[0x20]]
  else if s.last.isSome && !s.addedNewline then [[0x0A]] else []

/-- The white space before a comment. -/
def commentGap (indent : Bytes) (s : LayoutState) (t : Token) : List Bytes :=
  if t.kind = .hashbang then separator s t
  else separator s t ++ [indentation indent (if lastEndsOn s t.start.line then 0 else s.level)]

/-- The text of a comment that is written at the given level. -/
def commentText (indent : Bytes) (level : Int) (t : Token) : Bytes :=
  match t.kind with
  | .blockComment =>
    utf8 "/*" ++ reindent t.value t.start.column (indentation indent level) ++ utf8 "*/"
  | .hashbang => utf8 "#!" ++ t.value
  | _ => utf8 "//" ++ t.value

theorem step_comment {t : Token} {next : Option Token} (hc : t.isComment = true) :
    step indent s t next =
      ({ gap := commentGap indent s t
         text := commentText indent s.level t
         after := [if isInline t next then [0x20] else [0x0A]] },
       { s with
         last := remember t t.kind
         addedNewline := !isInline t next
         addedSpace := isInline t next }) := by
  have hstep : step indent s t next = comment indent s t next := if_pos hc
  rw [hstep]
  obtain ⟨kind, value, start, stop⟩ := t
  cases kind <;> rfl

theorem length_emissionsFrom (indent : Bytes) (s : LayoutState) (ts : List Token) :
    (emissionsFrom indent s ts).length = ts.length := by
  induction ts generalizing s with
  | nil => rfl
  | cons t ts ih => simp [emissionsFrom, ih]

theorem separator_cases (s : LayoutState) (t : Token) :
    separator s t = [] ∨ separator s t = [[0x0A]] ∨ separator s t = [[0x20]] := by
  unfold separator
  split
  · exact Or.inr (Or.inr rfl)
  · split
    · exact Or.inr (Or.inl rfl)
    · exact Or.inl rfl

theorem isPiece_commentGap {t : Token} : ∀ piece ∈ commentGap indent s t, IsPiece indent piece := by
  have hsep : ∀ piece ∈ separator s t, IsPiece indent piece := by
    intro piece h
    rcases separator_cases s t with he | he | he <;> rw [he] at h
    · cases h
    · exact Or.inl (List.mem_singleton.mp h)
    · exact Or.inr (Or.inl (List.mem_singleton.mp h))
  intro piece h
  unfold commentGap at h
  split at h
  · exact hsep piece h
  · rcases List.mem_append.mp h with h | h
    · exact hsep piece h
    · exact Or.inr (Or.inr ⟨_, List.mem_singleton.mp h⟩)

theorem separator_subset {t : Token} : separator s t ⊆ commentGap indent s t := by
  intro piece h
  unfold commentGap
  split
  · exact h
  · exact List.mem_append_left _ h

theorem commentGap_ne_nil {t : Token} (h : separator s t ≠ []) :
    (commentGap indent s t).flatten ≠ [] := by
  have hmem : ∃ b, [b] ∈ separator s t := by
    rcases separator_cases s t with he | he | he
    · exact absurd he h
    · exact ⟨_, by rw [he]; exact List.mem_singleton.mpr rfl⟩
    · exact ⟨_, by rw [he]; exact List.mem_singleton.mpr rfl⟩
  obtain ⟨b, hb⟩ := hmem
  exact List.ne_nil_of_mem
    (List.mem_flatten.mpr ⟨[b], separator_subset hb, List.mem_singleton.mpr rfl⟩)

theorem bytes_emissionsFrom_cons (indent : Bytes) (s : LayoutState) (t : Token)
    (rest : List Token) : (emissionsFrom indent s (t :: rest)).flatMap Emission.bytes =
      (step indent s t rest.head?).1.gap.flatten ++ ((step indent s t rest.head?).1.text ++
        ((step indent s t rest.head?).1.after.flatten ++
          (emissionsFrom indent (step indent s t rest.head?).2 rest).flatMap Emission.bytes)) := by
  rw [emissionsFrom, List.flatMap_cons, Emission.bytes, List.append_assoc, List.append_assoc]

/-- The kind that the layout remembers for a token of kind `kind`. -/
def RememberedAs (kind remembered : Kind) : Prop :=
  remembered = kind ∨ kind.isKeyword = true ∧ remembered = .name

theorem rememberedAs_effectiveKind (s : LayoutState) (t : Token) :
    RememberedAs t.kind (effectiveKind s t) := by
  unfold effectiveKind
  split
  next h => exact Or.inr ⟨(Bool.and_eq_true _ _ ▸ h).1, rfl⟩
  next => exact Or.inl rfl

theorem RememberedAs.eq {kind remembered : Kind} (h : RememberedAs kind remembered)
    (hkind : kind.isKeyword = false) : remembered = kind := by
  rcases h with he | ⟨hk, _⟩
  · exact he
  · rw [hkind] at hk
    cases hk

/-- A reserved word that is taken for a name is written like any reserved word. -/
theorem text_effectiveKind {t : Token} (s : LayoutState)
    (h : t.kind.isKeyword = true → t.value ≠ []) :
    Token.text { t with kind := effectiveKind s t } = t.text := by
  rcases rememberedAs_effectiveKind s t with he | ⟨hk, he⟩
  · rw [he]
  · rw [he]
    have hne := h hk
    obtain ⟨kind, value, first, last⟩ := t
    cases kind with
    | keyword k =>
      show value = if value.isEmpty then _ else value
      rw [if_neg (by simpa using hne)]
    | _ => cases hk

/-- The text that is written for a token is its own. -/
theorem text_step {t : Token} {next : Option Token} (ht : t.isComment = false)
    (hne : t.kind ≠ .eof) (hvalue : t.kind.isKeyword = true → t.value ≠ []) :
    (step indent s t next).1.text = t.text := by
  rw [step_plain ht hne]
  exact text_effectiveKind s hvalue

/-- What is written before a token or comment is made of pieces of white space. -/
theorem isPiece_step (t : Token) (next : Option Token) :
    ∀ piece ∈ (step indent s t next).1.gap, IsPiece indent piece := by
  by_cases hk : t.kind = .eof
  · rw [step_eof hk]
    intro piece hp
    cases hp
  · cases hc : t.isComment with
    | true =>
      rw [step_comment hc]
      exact isPiece_commentGap
    | false =>
      rw [step_plain hc hk]
      exact isPiece_gapBefore

theorem effectiveKind_of_last {t : Token} {kind : Kind} {value : Bytes} {line : Int}
    (h : s.last = some ⟨kind, value, line⟩) (hkind : kind ≠ .punct .dot) :
    effectiveKind s t = t.kind := by
  unfold effectiveKind
  rw [h, Option.any_some, beq_eq_false_iff_ne.mpr hkind, Bool.and_false]
  exact if_neg Bool.false_ne_true

/-! ## The state behind a token -/

/-- The kinds behind which a new line may start. -/
def mayEndLine (kind : Kind) : Bool :=
  kind = .punct .bracketL || kind = .punct .semi || kind = .punct .comma
    || kind = .punct .braceL || kind = .punct .colon

theorem mayEndLine_of_endsLine {kind : Kind} {last : Option LastToken} {frames : List Frame}
    (h : Rules.endsLine kind (Rules.isArrayLiteral kind last) frames = true) :
    mayEndLine kind = true := by
  unfold Rules.endsLine at h
  rw [Bool.or_eq_true] at h
  rcases h with h | h
  · have hkind : kind = .punct .bracketL := by
      unfold Rules.isArrayLiteral at h
      rw [Bool.and_eq_true] at h
      exact of_decide_eq_true h.1
    rw [hkind]
    rfl
  · split at h
    all_goals first | rfl | cases h

/-- The state behind a token `l` that is no comment, where `broke` tells whether a new line was
started behind it. -/
structure AfterPlain (l : Token) (next : Option Token) (s : LayoutState) (kind : Kind)
    (broke : Bool) : Prop where
  last : s.last = some ⟨kind, l.value, l.stop.line⟩
  remembered : RememberedAs l.kind kind
  space : s.addedSpace = false
  newline : commentFollows l next = false → s.addedNewline = broke
  waits : commentFollows l next = true → broke = false
  mayEnd : broke = true → mayEndLine kind = true

/-- A new line waits for a comment exactly if the comment stays on the line. -/
theorem AfterPlain.commentFollows_eq {l t : Token} {kind : Kind} {broke : Bool}
    (h : AfterPlain l (some t) s kind broke) :
    commentFollows l (some t) = (t.isComment && lastEndsOn s t.start.line) := by
  rw [commentFollows, lastEndsOn, h.last, Option.any_some, Option.any_some, Bool.beq_comm]

theorem AfterPlain.addedNewline {l t : Token} {kind : Kind} {broke : Bool}
    (h : AfterPlain l (some t) s kind broke) (ht : t.isComment = false) :
    s.addedNewline = broke := by
  refine h.newline ?_
  rw [h.commentFollows_eq, ht, Bool.false_and]

/-- The state behind a comment. -/
structure AfterComment (l : Token) (next : Option Token) (s : LayoutState) : Prop where
  last : s.last = some ⟨l.kind, l.value, l.stop.line⟩
  space : s.addedSpace = isInline l next
  newline : s.addedNewline = !isInline l next

/-- The states of a run: `last` was written, if there is one, then `pending`, and `next` is
next. -/
inductive Behind (indent : Bytes) : (last next : Option Token) → LayoutState → (pending : Bytes) →
    Prop
  | start {next} : Behind indent none next {} []
  | step {s t next} (ht : t.kind ≠ .eof) :
    Behind indent (some t) next (step indent s t next).2 (step indent s t next).1.after.flatten

variable {l : Token} {next : Option Token} {pending : Bytes}

theorem Behind.plain (h : Behind indent (some l) next s pending) (hl : l.isComment = false) :
    ∃ kind broke, AfterPlain l next s kind broke
      ∧ pending = if broke then [0x0A] else [] := by
  cases h with
  | @step s _ _ ht =>
    rw [step_plain hl ht]
    refine ⟨effectiveKind s l, !commentFollows l next && Rules.endsLine (effectiveKind s l)
      (Rules.isArrayLiteral (effectiveKind s l) s.last)
      ((Frame.opened? (effectiveKind s l) (Rules.isArrayLiteral (effectiveKind s l) s.last)).toList
        ++ s.frames), ⟨rfl, rememberedAs_effectiveKind s l, rfl, fun hw => ?_, fun hw => ?_,
        fun hb => ?_⟩, ?_⟩
    · exact if_neg (by rw [hw]; exact Bool.false_ne_true)
    · rw [hw]
      rfl
    · rw [Bool.and_eq_true] at hb
      exact mayEndLine_of_endsLine hb.2
    · rw [Layout.plain]
      dsimp only
      split
      · rfl
      · rfl

theorem Behind.comment (h : Behind indent (some l) next s pending) (hl : l.isComment = true) :
    AfterComment l next s ∧ pending = if isInline l next then [0x20] else [0x0A] := by
  cases h with
  | @step s _ _ ht =>
    rw [step_comment hl]
    refine ⟨⟨rfl, rfl, rfl⟩, ?_⟩
    exact List.flatten_singleton

/-- Behind a token stands nothing, a line feed or a space. -/
theorem Behind.pending_cases {last : Option Token} (h : Behind indent last next s pending) :
    pending = [] ∨ pending = [0x0A] ∨ pending = [0x20] := by
  cases last with
  | none =>
    cases h
    exact Or.inl rfl
  | some l =>
    cases hl : l.isComment with
    | false =>
      obtain ⟨kind, broke, _, rfl⟩ := h.plain hl
      cases broke
      · exact Or.inl rfl
      · exact Or.inr (Or.inl rfl)
    | true =>
      obtain ⟨_, rfl⟩ := h.comment hl
      cases isInline l next
      · exact Or.inr (Or.inl rfl)
      · exact Or.inr (Or.inr rfl)

/-- Nothing keeps a comment apart only if a line was started, and that was behind the token
before. -/
theorem Behind.pending_ne_nil {t : Token} (h : Behind indent (some l) (some t) s pending)
    (hnil : separator s t = []) : pending ≠ [] := by
  -- A comment on the line of the token has a space before it.
  have hends : lastEndsOn s t.start.line = false := by
    rw [← Bool.not_eq_true]
    intro hends
    rw [separator, if_pos hends] at hnil
    cases hnil
  rw [separator, hends, if_neg Bool.false_ne_true] at hnil
  cases hl : l.isComment with
  | true =>
    obtain ⟨_, rfl⟩ := h.comment hl
    cases isInline l (some t) <;> exact List.cons_ne_nil _ _
  | false =>
    obtain ⟨kind, broke, hafter, rfl⟩ := h.plain hl
    have hwaits : commentFollows l (some t) = false := by
      rw [hafter.commentFollows_eq, hends, Bool.and_false]
    rw [hafter.last, hafter.newline hwaits] at hnil
    cases broke
    · cases hnil
    · exact List.cons_ne_nil _ _

/-- In front of a token that is no comment, the flag says whether a new line was started. -/
theorem Behind.addedNewline_iff {last : Option Token} {t : Token}
    (h : Behind indent last (some t) s pending) (ht : t.isComment = false) :
    s.addedNewline = true ↔ 0x0A ∈ pending := by
  cases last with
  | none =>
    cases h
    simp
  | some l =>
    cases hl : l.isComment with
    | false =>
      obtain ⟨kind, broke, hafter, rfl⟩ := h.plain hl
      rw [hafter.addedNewline ht]
      cases broke <;> decide
    | true =>
      obtain ⟨hafter, rfl⟩ := h.comment hl
      rw [hafter.newline]
      cases isInline l (some t) <;> decide

/-! ## Template literals -/

/-- The first kind is that of a token which the text of a template literal may follow, and the
second is that of the text, or the first is that of the text and the second that of what ends
it. -/
def AroundChunk (k kind : Kind) : Prop :=
  (k = .punct .backQuote ∨ k = .punct .braceR ∨ k = .punct .parenR) ∧ kind = .template
    ∨ k = .template ∧ (kind = .punct .backQuote ∨ kind = .punct .dollarBraceL)

theorem AroundChunk.ordinary {k kind : Kind} (h : AroundChunk k kind) :
    (k.isComment = false ∧ k.isKeyword = false ∧ mayEndLine k = false)
      ∧ kind.isComment = false ∧ kind.isKeyword = false ∧ kind ≠ .eof := by
  rcases h with ⟨rfl | rfl | rfl, rfl⟩ | ⟨rfl, rfl | rfl⟩
  all_goals decide

theorem AroundChunk.ne_eof {k kind : Kind} (h : AroundChunk k kind) : k ≠ .eof := by
  rcases h with ⟨rfl | rfl | rfl, -⟩ | ⟨rfl, -⟩ <;> exact Kind.noConfusion

/-- Nothing is written around the text of a template literal, except for a space behind a closing
parenthesis. -/
theorem gapBefore_chunk {k kind : Kind} {value : Bytes} {line startLine level : Int}
    {frames : List Frame} (hlast : s.last = some ⟨k, value, line⟩) (hkinds : AroundChunk k kind)
    (hnewline : s.addedNewline = false) (hspace : s.addedSpace = false)
    (hline : startLine ≤ line) : gapBefore indent s kind startLine frames level =
      if k = .punct .parenR then [[0x20]] else [] := by
  have hbreaks : Rules.endsStatement kind startLine s.last = false := by
    rw [hlast, Rules.endsStatement_some, decide_eq_false (Int.not_lt.mpr hline), Bool.false_and]
  unfold gapBefore
  dsimp only
  rw [hbreaks, hlast, hnewline, hspace]
  rcases hkinds with ⟨rfl | rfl | rfl, rfl⟩ | ⟨rfl, rfl | rfl⟩
  all_goals rfl

/-- **The parts of a template literal stay together.** -/
theorem Behind.gap_chunk {t : Token} (hb : Behind indent (some l) (some t) s pending)
    (hkinds : AroundChunk l.kind t.kind) (hstart : t.start = l.stop) (next : Option Token) :
    pending = [] ∧ (Layout.step indent s t next).1.gap =
      if l.kind = .punct .parenR then [[0x20]] else [] := by
  obtain ⟨⟨hlcomment, hlkeyword, hlends⟩, ht, htkeyword, hne⟩ := hkinds.ordinary
  obtain ⟨kind, broke, hafter, rfl⟩ := hb.plain hlcomment
  obtain rfl : kind = l.kind := hafter.remembered.eq hlkeyword
  have hbroke : broke = false := by
    rw [← Bool.not_eq_true]
    intro hbr
    rw [hafter.mayEnd hbr] at hlends
    cases hlends
  subst hbroke
  refine ⟨rfl, ?_⟩
  rw [step_plain ht hne, (rememberedAs_effectiveKind s t).eq htkeyword]
  exact gapBefore_chunk hafter.last hkinds (hafter.addedNewline ht) hafter.space
    (Int.le_of_eq (congrArg Position.line hstart))

/-- What is written for the text of a template literal and for what ends it. -/
theorem Behind.chunk {t u : Token} {p : Punctuator}
    (hb : Behind indent (some l) (some t) s pending)
    (hl : l.kind = .punct .backQuote ∨ l.kind = .punct .braceR ∨ l.kind = .punct .parenR)
    (ht : t.kind = .template) (hstart : t.start = l.stop)
    (hp : p = .backQuote ∨ p = .dollarBraceL) (hu : u.kind = .punct p) (hvalue : u.value = [])
    (hstop : u.start = t.stop) (next : Option Token) :
    pending = [] ∧ (Layout.step indent s t (some u)).1.gap =
        (if l.kind = .punct .parenR then [[0x20]] else [])
      ∧ (Layout.step indent s t (some u)).1.text = t.value
      ∧ (Layout.step indent s t (some u)).1.after.flatten = []
      ∧ (Layout.step indent (Layout.step indent s t (some u)).2 u next).1.gap = []
      ∧ (Layout.step indent (Layout.step indent s t (some u)).2 u next).1.text =
        utf8 p.label := by
  have haround : AroundChunk t.kind u.kind :=
    Or.inr ⟨ht, hu ▸ hp.imp (congrArg Kind.punct) (congrArg Kind.punct)⟩
  obtain ⟨⟨htcomment, -, -⟩, hucomment, -, hune⟩ := haround.ordinary
  have htne := haround.ne_eof
  have heff : ∀ s : LayoutState, effectiveKind s t = .template ∧ effectiveKind s u = .punct p :=
    fun s => ⟨((rememberedAs_effectiveKind s t).eq (by rw [ht]; rfl)).trans ht,
      ((rememberedAs_effectiveKind s u).eq (by rw [hu]; rfl)).trans hu⟩
  obtain ⟨hpending, hgap⟩ := hb.gap_chunk (Or.inl ⟨hl, ht⟩) hstart (some u)
  have hb' : Behind indent (some t) (some u) (Layout.step indent s t (some u)).2
      (Layout.step indent s t (some u)).1.after.flatten := .step htne
  obtain ⟨hafter, hgap'⟩ := hb'.gap_chunk haround hstop next
  rw [if_neg (by rw [ht]; exact Kind.noConfusion)] at hgap'
  refine ⟨hpending, hgap, ?_, hafter, hgap', ?_⟩
  · rw [step_plain htcomment htne, (heff s).1]
    rfl
  · rw [step_plain hucomment hune, (heff _).2]
    show (if u.value.isEmpty then utf8 p.label else u.value) = _
    rw [hvalue]
    rfl

/-! ## Whole sources -/

/-- What may be written before the first token. -/
def leading (o : Options) : Bytes := if o.leadingNewline then [0x0A] else []

variable {tokens : List Token}

/-- The tokens of a source hold their end, so that none is assumed. -/
theorem emissions_of_lexedSource (indent : Bytes) (h : Scanner.LexedSource tokens) :
    emissions indent tokens = emissionsFrom indent {} tokens := if_pos h.getLast?

theorem code_formatTokens {o : Options} (h : Scanner.LexedSource tokens) :
    (formatTokens o tokens).code =
      leading o ++ (emissionsFrom o.indent {} tokens).flatMap Emission.bytes := by
  rw [← emissions_of_lexedSource o.indent h]
  rfl

theorem mappings_formatTokens {o : Options} (h : Scanner.LexedSource tokens) :
    (formatTokens o tokens).mappings =
      mappingsFrom o (Place.behind ⟨1, 0⟩ (leading o)) (emissionsFrom o.indent {} tokens) := by
  rw [← emissions_of_lexedSource o.indent h]
  rfl

end ScriptTidy.Layout
