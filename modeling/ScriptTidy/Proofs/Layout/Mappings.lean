import ScriptTidy.Layout.Format
import ScriptTidy.Proofs.Layout.Places
import ScriptTidy.Proofs.Layout.Separation
import ScriptTidy.Proofs.Layout.Steps
import ScriptTidy.Proofs.Scanner.Lexed

/-!
# The output and its mappings

The output of the formatter is the texts of the tokens with white space between them, and each
token that is neither a comment nor the end has one mapping, from where its text starts to where
the token started. The counters of the formatter see the output in pieces; since no character
goes across a seam between them, they give the line and the column of the text as a whole.

* `LaidOut` : outputs with their mappings, token by token.
* `seamless_plain`, `seamless_comment` : what one step writes is cut between characters.
* `allSeamless_of_lexed` : so is what a run writes.
* `laidOut_emissions` : the run lemma.
* `format_laidOut` : all that is written for an accepted source is laid out.
-/

namespace ScriptTidy

open Scanner

/-! ## Outputs -/

namespace Layout

/-- White space of the output: line feeds, spaces and indentations. -/
def IsGap (indent gap : Bytes) : Prop :=
  ∃ pieces : List Bytes, gap = pieces.flatten ∧ ∀ piece ∈ pieces, IsPiece indent piece

/-- The offsets at which input and output lie in their files. -/
structure OffsetsBelow (o : Options) (limit : Int) : Prop where
  originalLine : o.originalStartLine < limit
  originalColumn : o.originalStartColumn < limit
  generatedLine : o.generatedStartLine < limit

/-- The mapping of a token whose text starts behind the output `before`. Lines are those of the
texts as long as these are shorter than `2 ^ 62`, as texts in memory are. -/
structure MapsTo (o : Options) (before : Bytes) (t : Token) (m : Mapping) : Prop where
  generatedLine : before.length < 2 ^ 62 → m.generated.line =
    1 + before.count 0x0A + (if 0 < o.generatedStartLine then o.generatedStartLine - 1 else 0)
  generatedColumn : m.generated.column = utf16Units (lastLine before)
  originalLine : t.start.offset < 2 ^ 62 → m.original.line =
    t.start.line + (if 0 < o.originalStartLine then o.originalStartLine - 1 else 0)
  originalColumn : t.start.offset < 2 ^ 62 → m.original.column = t.start.column
    + (if t.start.line = 1 ∧ 0 < o.originalStartColumn then o.originalStartColumn else 0)
  source : m.source = o.url
  name : m.name = []

/-- `code` is what is written for tokens behind the output `before`, with the mappings of the
tokens; `last` is the token before them. -/
inductive LaidOut (o : Options) : (last : Option Token) → (before : Bytes) → List Token →
    (code : Bytes) → List Mapping → Prop
  | comment {last before t rest gap level code ms} (ht : t.isComment = true)
    (hgap : IsGap o.indent gap)
    (hrest : LaidOut o (some t) (before ++ gap ++ commentText o.indent level t) rest code ms) :
    LaidOut o last before (t :: rest) (gap ++ commentText o.indent level t ++ code) ms
  | token {last before t rest gap code m ms} (ht : t.isComment = false) (hne : t.kind ≠ .eof)
    (hgap : IsGap o.indent gap)
    (hbetween : ∀ l ∈ last, l.isComment = false → IsBetween o.indent gap)
    (hm : MapsTo o (before ++ gap) t m)
    (hrest : LaidOut o (some t) (before ++ gap ++ t.text) rest code ms) :
    LaidOut o last before (t :: rest) (gap ++ t.text ++ code) (m :: ms)
  | eof {last before t gap} (ht : t.kind = .eof) (hgap : IsGap o.indent gap)
    (hbetween : ∀ l ∈ last, l.isComment = false → IsBetween o.indent gap) :
    LaidOut o last before [t] gap []

theorem isGap_append {indent a b : Bytes} (ha : IsGap indent a) (hb : IsGap indent b) :
    IsGap indent (a ++ b) := by
  obtain ⟨xs, rfl, hxs⟩ := ha
  obtain ⟨ys, rfl, hys⟩ := hb
  refine ⟨xs ++ ys, List.flatten_append.symm, fun piece hp => ?_⟩
  exact (List.mem_append.mp hp).elim (hxs piece) (hys piece)

/-- Before the first token there may be more white space. -/
theorem LaidOut.prepend {o : Options} {before lead code : Bytes} {tokens : List Token}
    {ms : List Mapping} (h : LaidOut o none (before ++ lead) tokens code ms)
    (hlead : IsGap o.indent lead) : LaidOut o none before tokens (lead ++ code) ms := by
  cases h with
  | comment ht hgap hrest =>
    rw [← List.append_assoc, ← List.append_assoc]
    refine .comment ht (isGap_append hlead hgap) ?_
    rwa [← List.append_assoc]
  | token ht hne hgap _ hm hrest =>
    rw [← List.append_assoc, ← List.append_assoc]
    refine .token ht hne (isGap_append hlead hgap) (fun l hl => by cases hl) ?_ ?_
    · rwa [← List.append_assoc]
    · rwa [← List.append_assoc]
  | eof ht hgap _ => exact .eof ht (isGap_append hlead hgap) fun l hl => by cases hl

/-! ## Mappings -/

theorem shiftLine_eq {start : Int} (line : Int) (hstart : start < 2 ^ 61) (hline : 0 ≤ line)
    (hlimit : line ≤ 2 ^ 62) :
    Options.shiftLine start line = line + if 0 < start then start - 1 else 0 := by
  unfold Options.shiftLine
  split
  next hpos => rw [wrap64_eq_self (n := start - 1) (by omega), wrap64_eq_self (by omega)]
  next => exact (Int.add_zero line).symm

/-- **Mappings are made from the text as a whole.** -/
theorem mapsTo_behind {o : Options} (ho : OffsetsBelow o (2 ^ 61)) {source : Bytes} {t : Token}
    (ht : (Cursor.ofSource source).Shows t.start) (before : Bytes) :
    MapsTo o before t
      ⟨o.generatedPlace (Place.behind ⟨1, 0⟩ before), o.originalPlace t.start, o.url, []⟩ := by
  obtain ⟨hline, hcolumn, hsum⟩ := ht.bounded
  rw [Place.behind_start]
  refine ⟨fun hlen => ?_, rfl, fun hoffset => ?_, fun hoffset => ?_, rfl, rfl⟩
  -- There are no more lines than bytes, so the sum stays within a word.
  · have hcount := List.count_le_length (a := (0x0A : UInt8)) (l := before)
    exact shiftLine_eq (1 + before.count 0x0A) ho.generatedLine (by omega) (by omega)
  · exact shiftLine_eq _ ho.originalLine hline (by omega)
  · have hstart := ho.originalColumn
    show (if _ then _ else _) = _
    split
    next => exact wrap64_eq_self (by omega)
    next => exact (Int.add_zero _).symm

/-! ## Seams -/

/-- No character goes across a seam of what is written for a token behind `text`. -/
def Seamless (text : Bytes) (e : Emission) : Prop :=
  Place.Seamless text e.gap ∧ Place.Seam (text ++ e.gap.flatten) e.text
    ∧ Place.Seamless (text ++ e.gap.flatten ++ e.text) e.after

theorem mappingsFrom_cons {o : Options} {p : Place} {text : Bytes} {e : Emission}
    (h : Seamless text e) (rest : List Emission) :
    mappingsFrom o (p.behind text) (e :: rest) =
      (e.original.toList.map fun start =>
        ⟨o.generatedPlace (p.behind (text ++ e.gap.flatten)), o.originalPlace start, o.url, []⟩)
      ++ mappingsFrom o (p.behind (text ++ e.gap.flatten ++ e.text ++ e.after.flatten)) rest := by
  obtain ⟨hgap, htext, hafter⟩ := h
  rw [mappingsFrom, Place.behindAll_eq hgap, ← Place.behind_append htext,
    Place.behindAll_eq hafter]
  cases e.original with
  | none => rfl
  | some start => rfl

variable {indent : Bytes} {s : LayoutState} {last : Option Token} {t : Token}
variable {next : Option Token} {pending : Bytes}

/-- A line feed or a space is cut off from everything. -/
theorem fresh_blank {piece : Bytes} (h : piece = [0x0A] ∨ piece = [0x20]) : Utf8.Fresh piece := by
  rcases h with rfl | rfl
  · exact Utf8.fresh_cons (by decide)
  · exact Utf8.fresh_cons (by decide)

theorem seam_blank {before piece : Bytes} {pieces : List Bytes} (hne : pieces ≠ [])
    (h : ∀ piece ∈ pieces, piece = [0x0A] ∨ piece = [0x20]) :
    Place.Seam (before ++ pieces.flatten) piece := by
  refine Place.seam_of_ascii (fun hflat => ?_) fun x hx => ?_
  · obtain ⟨piece, pieces, rfl⟩ := List.exists_cons_of_ne_nil hne
    rcases h piece List.mem_cons_self with rfl | rfl <;> cases hflat
  · obtain ⟨piece, hp, hx⟩ := List.mem_flatten.mp hx
    rcases h piece hp with rfl | rfl <;> rw [List.mem_singleton.mp hx] <;> decide

theorem seam_pending (hb : Behind indent last next s pending) (hne : pending ≠ [])
    (before piece : Bytes) : Place.Seam (before ++ pending) piece := by
  refine Place.seam_of_ascii hne fun x hx => ?_
  rcases hb.pending_cases with rfl | rfl | rfl
  · cases hx
  · rw [List.mem_singleton.mp hx]
    decide
  · rw [List.mem_singleton.mp hx]
    decide

/-- An indentation may start with any byte, but it stands behind a line feed or a space. -/
theorem seamless_gapBefore (hb : Behind indent last (some t) s pending)
    (ht : t.isComment = false) (before : Bytes) (kind : Kind) (line : Int) (frames : List Frame)
    (level : Int) :
    Place.Seamless (before ++ pending) (gapBefore indent s kind line frames level) := by
  obtain ⟨pieces, hpieces, hgap⟩ := gapBefore_cases indent s kind line frames level
  have hplain : Place.Seamless (before ++ pending) pieces :=
    Place.seamless_of_fresh fun piece hp => fresh_blank (hpieces piece hp)
  rcases hgap with he | ⟨he, hfirst⟩
  · rw [he]
    exact hplain
  · rw [he, Place.seamless_append]
    refine ⟨hplain, ?_, trivial⟩
    -- The indentation stands behind a piece of the gap or behind what was pending.
    by_cases hnil : pieces = []
    · have hmem := (hb.addedNewline_iff ht).mp (hfirst hnil)
      rw [hnil, List.flatten_nil, List.append_nil]
      exact seam_pending hb (List.ne_nil_of_mem hmem) before _
    · exact seam_blank hnil hpieces

/-- A comment that starts a line is indented behind a line feed. -/
theorem seamless_commentGap (hb : Behind indent last (some t) s pending) (before : Bytes) :
    Place.Seamless (before ++ pending) (commentGap indent s t) := by
  have hsep : ∀ piece ∈ separator s t, piece = [0x0A] ∨ piece = [0x20] := by
    intro piece h
    rcases separator_cases s t with he | he | he <;> rw [he] at h
    · cases h
    · exact Or.inl (List.mem_singleton.mp h)
    · exact Or.inr (List.mem_singleton.mp h)
  have hplain : Place.Seamless (before ++ pending) (separator s t) :=
    Place.seamless_of_fresh fun piece hp => fresh_blank (hsep piece hp)
  unfold commentGap
  split
  · exact hplain
  · rw [Place.seamless_append]
    refine ⟨hplain, ?_, trivial⟩
    cases last with
    | none =>
      cases hb
      exact Or.inl Utf8.fresh_nil
    | some l =>
      by_cases hnil : separator s t = []
      · -- the line was started behind the token before
        rw [hnil, List.flatten_nil, List.append_nil]
        exact seam_pending hb (hb.pending_ne_nil hnil) before _
      · exact seam_blank hnil hsep

/-- What a step writes for a token is cut between characters if the text is. -/
theorem seamless_plain (hb : Behind indent last (some t) s pending) (ht : t.isComment = false)
    (hne : t.kind ≠ .eof) (htext : (step indent s t next).1.text = t.text) {before : Bytes}
    (hseam : Place.Seam (before ++ pending ++ (step indent s t next).1.gap.flatten) t.text) :
    Seamless (before ++ pending) (step indent s t next).1 := by
  refine ⟨?_, by rwa [htext], ?_⟩
  · rw [step_plain ht hne]
    exact seamless_gapBefore hb ht before _ _ _ _
  · rw [step_plain ht hne, plain]
    dsimp only
    split
    · exact ⟨Or.inl (Utf8.fresh_cons (by decide)), trivial⟩
    · trivial

theorem fresh_commentText (indent : Bytes) (level : Int) (t : Token) :
    Utf8.Fresh (commentText indent level t) := by
  unfold commentText
  split
  · exact Utf8.fresh_cons (by decide)
  · exact Utf8.fresh_cons (by decide)
  · exact Utf8.fresh_cons (by decide)

theorem seamless_comment (hb : Behind indent last (some t) s pending) (ht : t.isComment = true)
    (before : Bytes) : Seamless (before ++ pending) (step indent s t next).1 := by
  rw [step_comment ht]
  refine ⟨seamless_commentGap hb before, Or.inl (fresh_commentText _ _ _), ?_⟩
  refine Place.seamless_of_fresh fun piece hp => fresh_blank ?_
  rw [List.mem_singleton.mp hp]
  cases isInline t next
  · exact Or.inl rfl
  · exact Or.inr rfl

/-! ## Steps -/

/-- What the layout writes from the state `s` on is laid out, where `pending` is the white space
behind the token before. -/
def Written (o : Options) (last : Option Token) (before : Bytes) (tokens : List Token)
    (s : LayoutState) (pending : Bytes) : Prop :=
  LaidOut o last before tokens
    (pending ++ (emissionsFrom o.indent s tokens).flatMap Emission.bytes)
    (mappingsFrom o (Place.behind ⟨1, 0⟩ (before ++ pending)) (emissionsFrom o.indent s tokens))

theorem IsPiece.isGap {piece : Bytes} (h : IsPiece indent piece) : IsGap indent piece := by
  refine ⟨[piece], List.flatten_singleton.symm, fun x hx => ?_⟩
  rwa [List.mem_singleton.mp hx]

theorem Behind.isGap (hb : Behind indent last next s pending) : IsGap indent pending := by
  rcases hb.pending_cases with rfl | rfl | rfl
  · exact ⟨[], rfl, fun piece hp => by cases hp⟩
  · exact IsPiece.isGap (Or.inl rfl)
  · exact IsPiece.isGap (Or.inr (Or.inl rfl))

/-- Between two tokens that are no comments there is a gap of few forms. -/
theorem isBetween_pending {l : Token} (hb : Behind indent (some l) (some t) s pending)
    (hl : l.isComment = false) (ht : t.isComment = false) (kind : Kind) (line : Int)
    (frames : List Frame) (level : Int) :
    IsBetween indent (pending ++ (gapBefore indent s kind line frames level).flatten) := by
  obtain ⟨lastKind, broke, hafter, hpending⟩ := hb.plain hl
  refine isBetween_gapBefore hafter.space (hafter.addedNewline ht) hpending fun hbroke => ?_
  -- No line is started behind a closing brace before the next token is known.
  have hends := hafter.mayEnd hbroke
  rw [hafter.last]
  intro he
  have hkind : lastKind = .punct .braceR := Option.some.inj he
  rw [hkind] at hends
  cases hends

variable {o : Options} {before : Bytes} {rest : List Token}

theorem written_comment (hb : Behind o.indent last (some t) s pending) (ht : t.isComment = true)
    (hseam : Seamless (before ++ pending) (step o.indent s t rest.head?).1)
    (hrest : Written o (some t)
      (before ++ (pending ++ (commentGap o.indent s t).flatten) ++ commentText o.indent s.level t)
      rest (step o.indent s t rest.head?).2 (step o.indent s t rest.head?).1.after.flatten) :
    Written o last before (t :: rest) s pending := by
  unfold Written at hrest ⊢
  rw [bytes_emissionsFrom_cons, emissionsFrom, mappingsFrom_cons hseam]
  rw [step_comment ht] at hrest ⊢
  have hlaid : LaidOut o last before (t :: rest) _ _ :=
    .comment ht (isGap_append hb.isGap ⟨_, rfl, isPiece_commentGap⟩) hrest
  simpa only [List.append_assoc, Option.toList_none, List.map_nil, List.nil_append] using hlaid

theorem written_token (ho : OffsetsBelow o (2 ^ 61)) {source : Bytes}
    (hshows : (Cursor.ofSource source).Shows t.start)
    (hb : Behind o.indent last (some t) s pending) (ht : t.isComment = false)
    (hne : t.kind ≠ .eof) (hvalue : t.kind.isKeyword = true → t.value ≠ [])
    (hseam : Seamless (before ++ pending) (step o.indent s t rest.head?).1)
    (hrest : Written o (some t)
      (before ++ (pending ++ (step o.indent s t rest.head?).1.gap.flatten) ++ t.text) rest
      (step o.indent s t rest.head?).2 (step o.indent s t rest.head?).1.after.flatten) :
    Written o last before (t :: rest) s pending := by
  have htext : (step o.indent s t rest.head?).1.text = t.text := text_step ht hne hvalue
  have horiginal : (step o.indent s t rest.head?).1.original = some t.start := by
    rw [step_plain ht hne]
    rfl
  have hgap : IsGap o.indent (pending ++ (step o.indent s t rest.head?).1.gap.flatten) :=
    isGap_append hb.isGap ⟨_, rfl, isPiece_step t rest.head?⟩
  have hbetween : ∀ l ∈ last, l.isComment = false →
      IsBetween o.indent (pending ++ (step o.indent s t rest.head?).1.gap.flatten) := by
    rintro l rfl hl
    rw [step_plain ht hne]
    exact isBetween_pending hb hl ht _ _ _ _
  unfold Written at hrest ⊢
  rw [bytes_emissionsFrom_cons, emissionsFrom, mappingsFrom_cons hseam, htext, horiginal]
  have hlaid := LaidOut.token ht hne hgap hbetween (mapsTo_behind ho hshows _) hrest
  simpa only [List.append_assoc, Option.toList_some, List.map_cons, List.map_nil,
    List.singleton_append] using hlaid

theorem written_eof (hb : Behind o.indent last (some t) s pending) (ht : t.kind = .eof) :
    Written o last before [t] s pending := by
  have hcomment : t.isComment = false := Token.isComment_of_kind ht
  have hflag := hb.addedNewline_iff hcomment
  -- the last line is ended here, unless that was done behind the last token
  have hcode : pending ++ (emissionsFrom o.indent s [t]).flatMap Emission.bytes =
      if s.addedNewline then pending else pending ++ [0x0A] := by
    rw [bytes_emissionsFrom_cons, step_eof ht]
    cases s.addedNewline
    · rfl
    · exact List.append_nil _
  have hmappings : mappingsFrom o (Place.behind ⟨1, 0⟩ (before ++ pending))
      (emissionsFrom o.indent s [t]) = [] := by
    rw [emissionsFrom, step_eof ht]
    rfl
  unfold Written
  rw [hcode, hmappings]
  refine .eof ht ?_ ?_
  · split
    · exact hb.isGap
    · exact isGap_append hb.isGap (IsPiece.isGap (Or.inl rfl))
  · rintro l rfl hl
    obtain ⟨kind, broke, hafter, rfl⟩ := hb.plain hl
    rw [hafter.addedNewline hcomment]
    cases broke
    · exact isBetween_newline
    · exact isBetween_newline

/-! ## Runs -/

theorem value_eq_nil_of_opensChunk {exprAllowed : Bool} {kind : Kind} {value : Bytes}
    (h : Lexeme exprAllowed kind value) (hk : opensChunk kind = true) : value = [] := by
  cases h with
  | @word chars _ =>
    rcases wordKind_cases (Utf8.encodeChars chars) with ⟨k, he⟩ | he <;> rw [he] at hk <;> cases hk
  | punct _ _ => rfl
  | _ => cases hk

/-- The text of a punctuator is made of characters of one byte. -/
theorem ascii_punct {p : Punctuator} (ht : t.kind = .punct p) (hvalue : t.value = []) :
    t.text ≠ [] ∧ ∀ x ∈ t.text, x < 0x80 := by
  have htext : t.text = utf8 p.label := by
    rw [Token.text, ht]
    show (if t.value.isEmpty then utf8 p.label else t.value) = _
    rw [hvalue]
    rfl
  have hall : (utf8 p.label).all (· < 0x80) = true := by
    cases p <;> decide
  rw [htext]
  refine ⟨by cases p <;> decide, fun x hx => ?_⟩
  exact of_decide_eq_true (List.all_eq_true.mp hall x hx)

theorem fresh_punct {p : Punctuator} (ht : t.kind = .punct p) (hvalue : t.value = []) :
    Utf8.Fresh t.text := fun b hb =>
  Utf8.isTail_of_ascii ((ascii_punct ht hvalue).2 b (List.mem_of_mem_head? hb))

theorem seam_punct {p : Punctuator} (ht : t.kind = .punct p) (hvalue : t.value = [])
    (before piece : Bytes) : Place.Seam (before ++ t.text) piece :=
  Place.seam_of_ascii (ascii_punct ht hvalue).1 (ascii_punct ht hvalue).2

/-- No character goes across a seam of what is written behind `text`. -/
def AllSeamless : (text : Bytes) → List Emission → Prop
  | _, [] => True
  | text, e :: rest =>
    Seamless text e ∧ AllSeamless (text ++ e.gap.flatten ++ e.text ++ e.after.flatten) rest

theorem allSeamless_cons {text : Bytes} {rest : List Token} :
    AllSeamless text (emissionsFrom indent s (t :: rest)) ↔
      Seamless text (step indent s t rest.head?).1
        ∧ AllSeamless (text ++ (step indent s t rest.head?).1.gap.flatten ++
          (step indent s t rest.head?).1.text ++ (step indent s t rest.head?).1.after.flatten)
          (emissionsFrom indent (step indent s t rest.head?).2 rest) := Iff.rfl

/-- **The output is cut between characters.** The text of a template literal may start with any
byte, but what it stands behind ends in a character of one byte. -/
theorem allSeamless_of_lexed {situation : Situation} {prev : Kind} {seen : Bool}
    {tokens : List Token} (h : Lexed situation prev last seen tokens)
    (hb : Behind indent last tokens.head? s pending)
    (hclosed : ∀ l ∈ last, opensChunk l.kind = true → ∀ piece, Place.Seam before piece) :
    AllSeamless (before ++ pending) (emissionsFrom indent s tokens) := by
  induction h generalizing s pending before with
  | @comment situation prev last seen t rest flag hs ht hline hrest ih =>
    obtain ⟨hcomment, hne⟩ := ht.isComment
    refine allSeamless_cons.mpr ⟨seamless_comment hb hcomment before, ih (Behind.step hne) ?_⟩
    rintro l ⟨⟩ hopens
    rcases ht with ⟨he, _⟩ | ⟨he, _⟩ <;> rw [he] at hopens <;> cases hopens
  | @chunk situation prev l seen t u p rest hs hprev hl ht hstart hu hvalue hstop hchunk hrest ih =>
    subst hl
    -- Nothing but a space stands between the text and what it follows.
    obtain ⟨rfl, hgap⟩ :=
      hb.gap_chunk (Or.inl ⟨opensChunk_iff.mp hprev, ht⟩) hstart (u :: rest).head?
    have haround : AroundChunk t.kind u.kind := Or.inr ⟨ht, hchunk.kind hu⟩
    obtain ⟨⟨htcomment, -, -⟩, hucomment, -, hune⟩ := haround.ordinary
    have htne := haround.ne_eof
    have httext : ∀ next, (step indent s t next).1.text = t.text := fun next =>
      text_step htcomment htne fun hk => by rw [ht] at hk; cases hk
    have hutext : ∀ (s : LayoutState) (next : Option Token),
        (step indent s u next).1.text = u.text := fun s next =>
      text_step hucomment hune fun hk => by rw [hu] at hk; cases hk
    refine allSeamless_cons.mpr ⟨seamless_plain hb htcomment htne (httext _) ?_,
      allSeamless_cons.mpr ⟨seamless_plain (Behind.step htne) hucomment hune (hutext _ _)
        (Or.inl (fresh_punct hu hvalue)), ih (Behind.step hune) ?_⟩⟩
    · rw [hgap]
      split
      · exact seam_blank (List.cons_ne_nil _ _) fun piece hp => Or.inr (List.mem_singleton.mp hp)
      · simpa using hclosed l rfl hprev _
    · rintro k ⟨⟩ _ piece
      rw [hutext]
      exact seam_punct hu hvalue _ piece
  | @token situation prev last seen t rest flag hs ht hline hrest ih =>
    obtain ⟨hcomment, hne, _⟩ := ht.ordinary
    have htext : (step indent s t rest.head?).1.text = t.text :=
      text_step hcomment hne (value_ne_nil_of_isKeyword ht)
    refine allSeamless_cons.mpr
      ⟨seamless_plain hb hcomment hne htext (Or.inl (fresh_text ht)), ih (Behind.step hne) ?_⟩
    rintro l ⟨⟩ hopens piece
    obtain ⟨p, hp⟩ : ∃ p, t.kind = .punct p := by
      rcases opensChunk_iff.mp hopens with he | he | he <;> exact ⟨_, he⟩
    rw [htext]
    exact seam_punct hp (value_eq_nil_of_opensChunk ht hopens) _ piece
  | @eof situation prev last seen t flag hs ht hvalue hline =>
    rw [emissionsFrom, step_eof ht]
    refine ⟨⟨trivial, Or.inl Utf8.fresh_nil, ?_⟩, trivial⟩
    refine Place.seamless_of_fresh fun piece hp => fresh_blank ?_
    split at hp
    · cases hp
    · exact Or.inl (List.mem_singleton.mp hp)

/-- **The output is laid out.** -/
theorem written_of_lexed (ho : OffsetsBelow o (2 ^ 61)) {source : Bytes} {situation : Situation}
    {prev : Kind} {seen : Bool} {tokens : List Token}
    (h : Lexed situation prev last seen tokens)
    (hshows : ∀ t ∈ tokens, (Cursor.ofSource source).Shows t.start)
    (hb : Behind o.indent last tokens.head? s pending)
    (hseam : AllSeamless (before ++ pending) (emissionsFrom o.indent s tokens)) :
    Written o last before tokens s pending := by
  -- the rest is written behind the text of the first token
  have hbehind : ∀ {before pending : Bytes} {s : LayoutState} {t : Token} {text : Bytes}
      {rest : List Token}, AllSeamless (before ++ pending) (emissionsFrom o.indent s (t :: rest)) →
      (step o.indent s t rest.head?).1.text = text →
      AllSeamless (before ++ (pending ++ (step o.indent s t rest.head?).1.gap.flatten) ++ text ++
        (step o.indent s t rest.head?).1.after.flatten)
        (emissionsFrom o.indent (step o.indent s t rest.head?).2 rest) := by
    rintro before pending s t text rest hseam rfl
    have hrest := (allSeamless_cons.mp hseam).2
    simpa only [List.append_assoc] using hrest
  induction h generalizing s pending before with
  | @comment situation prev last seen t rest flag hs ht hline hrest ih =>
    obtain ⟨hcomment, hne⟩ := ht.isComment
    refine written_comment hb hcomment (allSeamless_cons.mp hseam).1
      (ih (fun u hu => hshows u (List.mem_cons_of_mem _ hu)) (Behind.step hne) ?_)
    rw [← show (step o.indent s t rest.head?).1.gap = commentGap o.indent s t by
      rw [step_comment hcomment]]
    exact hbehind hseam (by rw [step_comment hcomment])
  | @chunk situation prev l seen t u p rest hs hprev hl ht hstart hu hvalue hstop hchunk hrest ih =>
    have haround : AroundChunk t.kind u.kind := Or.inr ⟨ht, hchunk.kind hu⟩
    obtain ⟨⟨htcomment, -, -⟩, hucomment, -, hune⟩ := haround.ordinary
    have htne := haround.ne_eof
    have htkeyword : t.kind.isKeyword = true → t.value ≠ [] := fun hk => by rw [ht] at hk; cases hk
    have hukeyword : u.kind.isKeyword = true → u.value ≠ [] := fun hk => by rw [hu] at hk; cases hk
    have hseam' := hbehind hseam (text_step htcomment htne htkeyword)
    refine written_token ho (hshows t List.mem_cons_self) hb htcomment htne htkeyword
      (allSeamless_cons.mp hseam).1 ?_
    refine written_token ho (hshows u (by simp)) (Behind.step htne) hucomment hune hukeyword
      (allSeamless_cons.mp hseam').1 ?_
    exact ih (fun x hx => hshows x (by simp [hx])) (Behind.step hune)
      (hbehind hseam' (text_step hucomment hune hukeyword))
  | @token situation prev last seen t rest flag hs ht hline hrest ih =>
    obtain ⟨hcomment, hne, _⟩ := ht.ordinary
    have hkeyword := value_ne_nil_of_isKeyword ht
    exact written_token ho (hshows t List.mem_cons_self) hb hcomment hne hkeyword
      (allSeamless_cons.mp hseam).1
      (ih (fun u hu => hshows u (List.mem_cons_of_mem _ hu)) (Behind.step hne)
        (hbehind hseam (text_step hcomment hne hkeyword)))
  | @eof situation prev last seen t flag hs ht hvalue hline => exact written_eof hb ht

/-! ## Whole sources -/

theorem allSeamless_of_lexedSource {tokens : List Token} (h : LexedSource tokens)
    (before : Bytes) : AllSeamless before (emissionsFrom indent {} tokens) := by
  rw [← List.append_nil before]
  cases h with
  | plain hlexed => exact allSeamless_of_lexed hlexed .start fun l hl => by cases hl
  | @hashbang t rest ht hvalue hlexed =>
    have hcomment : t.isComment = true := Token.isComment_of_kind ht
    have hne : t.kind ≠ .eof := by rw [ht]; exact Kind.noConfusion
    refine allSeamless_cons.mpr ⟨seamless_comment .start hcomment before,
      allSeamless_of_lexed hlexed (Behind.step hne) ?_⟩
    rintro l ⟨⟩ hopens
    rw [ht] at hopens
    cases hopens

theorem laidOut_emissions (ho : OffsetsBelow o (2 ^ 61)) {source : Bytes} {tokens : List Token}
    (h : LexedSource tokens) (hshows : ∀ t ∈ tokens, (Cursor.ofSource source).Shows t.start)
    (before : Bytes) : Written o none before tokens {} [] := by
  have hseam : AllSeamless before (emissionsFrom o.indent {} tokens) :=
    allSeamless_of_lexedSource h before
  cases h with
  | plain hlexed =>
    exact written_of_lexed ho hlexed hshows .start (by rwa [List.append_nil])
  | @hashbang t rest ht hvalue hlexed =>
    have hcomment : t.isComment = true := Token.isComment_of_kind ht
    have hne : t.kind ≠ .eof := by rw [ht]; exact Kind.noConfusion
    obtain ⟨hfirst, hrest⟩ := allSeamless_cons.mp hseam
    refine written_comment .start hcomment (by rw [List.append_nil]; exact hfirst)
      (written_of_lexed ho hlexed
        (fun u hu => hshows u (List.mem_cons_of_mem _ hu)) (Behind.step hne) ?_)
    rw [step_comment hcomment] at hrest ⊢
    simpa only [List.append_assoc, List.nil_append] using hrest

end Layout

/-- **Nothing is lost, and the mappings are exact.** The output for a source that is accepted is
its tokens and comments in order with white space between them; each token has one mapping, from
the place at which its text starts in the output. -/
theorem format_laidOut (o : Options) {source : Bytes} {tokens : List Token}
    (h : tokenize source = .ok tokens) (ho : Layout.OffsetsBelow o (2 ^ 61)) :
    ∃ f, format o source = .ok f ∧ Layout.LaidOut o none [] tokens f.code f.mappings := by
  refine ⟨formatTokens o tokens, by rw [format, h], ?_⟩
  have hlexed := tokenize_lexed h
  have hwritten := Layout.laidOut_emissions ho hlexed
    (fun t ht => (tokenize_covers h t ht).1) (Layout.leading o)
  -- The empty line that may come first belongs to the first gap.
  unfold Layout.Written at hwritten
  rw [List.nil_append, List.append_nil] at hwritten
  rw [Layout.code_formatTokens hlexed, Layout.mappings_formatTokens hlexed]
  refine hwritten.prepend ?_
  unfold Layout.leading
  split
  · exact Layout.IsPiece.isGap (Or.inl rfl)
  · exact ⟨[], rfl, fun piece hp => by cases hp⟩

theorem format_laidOut_names :
    ∃ f, format { indent := utf8 "  ", originalStartLine := 3, originalStartColumn := 8 }
        (utf8 "a\nb") = .ok f
      ∧ Layout.LaidOut { indent := utf8 "  ", originalStartLine := 3, originalStartColumn := 8 }
        none [] [⟨.name, utf8 "a", ⟨1, 0, 0⟩, ⟨1, 1, 1⟩⟩, ⟨.name, utf8 "b", ⟨2, 0, 2⟩, ⟨2, 1, 3⟩⟩,
          ⟨.eof, [], ⟨2, 1, 3⟩, ⟨2, 1, 3⟩⟩] f.code f.mappings :=
  format_laidOut _ (by decide +kernel) ⟨by decide, by decide, by decide⟩

end ScriptTidy
