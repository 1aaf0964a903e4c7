import ScriptTidy.Proofs.Layout.Idempotence
import ScriptTidy.Proofs.Layout.Mappings

/-!
# Mappings and the scan of the output

A mapping shows where its token starts in the output. Whoever reads the output finds the token
there if both count lines alike, but they do not: the formatter starts a line at each line feed
only, while for a scan a carriage return without a line feed and the two separators of lines and
paragraphs end a line too. Template literals, strings and comments may hold them, and then the
mappings of all tokens behind are wrong. Up to the first of them both counters agree.

* `strayLineEnds` : the line ends that only a scan counts.
* `Cursor.Reads.line_eq`, `Cursor.Reads.place_eq` : the two counters along a text.
* `offsets_readBack` : the tokens of the output start where the formatter wrote them.
* `format_generated_iff` : a mapping is right exactly if no such line end stands before its token.
-/

namespace ScriptTidy

open Scanner

/-! ## Two counters -/

/-- The character ends a line of a scan, but not one of the formatter. A carriage return in front
of a line feed belongs to the line end that both count. -/
def isStray (g : Glyph) (rest : List Glyph) : Bool :=
  isLineTerminator g.char && g.char != '\n'
    && !(g.char == '\r' && rest.head?.map (·.char) == some '\n')

/-- How many lines end within the next `count` bytes for a scan, but not for the formatter. -/
def strayLineEnds : (count : Nat) → List Glyph → Nat
  | _, [] => 0
  | count, g :: rest =>
    if count = 0 then 0
    else (if isStray g rest then 1 else 0) + strayLineEnds (count - g.bytes.length) rest

/-- How many lines of a scan of `code` end before the offset, but not for the formatter. -/
def straysBefore (code : Bytes) (offset : Int) : Nat :=
  strayLineEnds offset.toNat (Utf8.glyphs code)

theorem strayLineEnds_cons {g : Glyph} (hg : g.bytes ≠ []) (gs rest : List Glyph) :
    strayLineEnds ((g :: gs).flatMap (·.bytes)).length (g :: rest) =
      (if isStray g rest then 1 else 0) + strayLineEnds (gs.flatMap (·.bytes)).length rest := by
  have hpos := List.length_pos_iff.mpr hg
  rw [strayLineEnds, List.flatMap_cons, List.length_append, if_neg (by omega),
    Nat.add_sub_cancel_left]

theorem Place.line_behind (p : Place) (text : Bytes) :
    (p.behind text).line = p.line + (Utf8.chars text).count '\n' := by
  unfold Place.behind
  induction Utf8.chars text generalizing p with
  | nil => exact (Int.add_zero _).symm
  | cons c cs ih =>
    rw [List.foldl_cons, ih, List.count_cons]
    by_cases hc : (c == '\n') = true
    · rw [if_pos hc, if_pos hc]
      push_cast
      omega
    · rw [if_neg hc, if_neg hc, Nat.add_zero]

namespace Cursor

variable {c d : Cursor} {gs : List Glyph}

theorem past_line (c : Cursor) (g : Glyph) (rest : List Glyph) : (c.past g rest).line =
    c.line + (if g.char == '\n' then 1 else 0) + if isStray g rest then 1 else 0 := by
  unfold past isStray
  dsimp only
  -- in front of a line feed, a carriage return leaves the counting to that
  by_cases hpair : (g.char == '\r' && rest.head?.map (·.char) == some '\n') = true
  · have hcr : g.char = '\r' := by
      rw [Bool.and_eq_true, beq_iff_eq] at hpair
      exact hpair.1
    rw [if_pos hpair, hpair, hcr]
    rfl
  · rw [if_neg hpair, Bool.eq_false_iff.mpr hpair, Bool.not_false, Bool.and_true]
    by_cases hends : isLineTerminator g.char = true
    · rw [if_pos hends, hends, Bool.true_and]
      by_cases hfeed : g.char = '\n'
      · simp [hfeed]
      · simp [hfeed]
    · have hfeed : g.char ≠ '\n' := by
        intro hfeed
        rw [hfeed] at hends
        exact hends rfl
      rw [if_neg hends, Bool.eq_false_iff.mpr hends]
      simp [hfeed]

theorem past_column {g : Glyph} {rest : List Glyph} (h : isStray g rest = false) :
    (c.past g rest).column = if g.char == '\n' then 0 else c.column + utf16Width g.char := by
  unfold isStray at h
  unfold past
  dsimp only
  by_cases hpair : (g.char == '\r' && rest.head?.map (·.char) == some '\n') = true
  · have hcr : g.char = '\r' := by
      rw [Bool.and_eq_true, beq_iff_eq] at hpair
      exact hpair.1
    rw [if_pos hpair, hcr]
    rfl
  · rw [if_neg hpair]
    rw [Bool.eq_false_iff.mpr hpair, Bool.not_false, Bool.and_true] at h
    by_cases hfeed : g.char = '\n'
    · rw [hfeed]
      rfl
    · have hne : (g.char != '\n') = true := bne_iff_ne.mpr hfeed
      rw [hne, Bool.and_true] at h
      rw [h, beq_eq_false_iff_ne.mpr hfeed]
      rfl

/-- A scan counts the line feeds and the stray line ends. -/
theorem Reads.line_eq (h : c.Reads gs d) (hne : ∀ g ∈ gs, g.bytes ≠ []) :
    d.line = c.line + (gs.map (·.char)).count '\n'
      + strayLineEnds (gs.flatMap (·.bytes)).length c.rest := by
  induction gs generalizing c with
  | nil =>
    have hzero : strayLineEnds 0 c.rest = 0 := by
      cases c.rest with
      | nil => rfl
      | cons g rest => exact if_pos rfl
    rw [h.eq_of_nil]
    exact (congrArg (c.line + 0 + ·) hzero).symm
  | cons g gs ih =>
    obtain ⟨hrest, hg⟩ := h.uncons
    rw [ih hg fun x hx => hne x (List.mem_cons_of_mem g hx), past_line, past_rest, hrest,
      strayLineEnds_cons (hne g List.mem_cons_self), List.map_cons, List.count_cons]
    omega

/-- **Without stray line ends the counters agree.** -/
theorem Reads.place_eq (h : c.Reads gs d) (hdec : Utf8.IsDecoding gs)
    (hstray : strayLineEnds (gs.flatMap (·.bytes)).length c.rest = 0) :
    (⟨d.line, d.column⟩ : Place) = Place.behind ⟨c.line, c.column⟩ (gs.flatMap (·.bytes)) := by
  have hchars : Utf8.chars (gs.flatMap (·.bytes)) = gs.map (·.char) := by
    rw [Utf8.chars, show Utf8.glyphs (gs.flatMap (·.bytes)) = gs from hdec]
  have hne := hdec.bytes_ne_nil
  rw [Place.behind, hchars]
  clear hchars hdec
  -- none of the glyphs is stray, so that both counters take the same step at each
  induction gs generalizing c with
  | nil =>
    rw [h.eq_of_nil]
    rfl
  | cons g gs ih =>
    obtain ⟨hrest, hg⟩ := h.uncons
    rw [hrest, strayLineEnds_cons (hne g List.mem_cons_self)] at hstray
    have hfirst : isStray g (gs ++ d.rest) = false := by
      rw [← Bool.not_eq_true]
      intro hs
      rw [if_pos hs] at hstray
      omega
    rw [hfirst, if_neg Bool.false_ne_true, Nat.zero_add] at hstray
    rw [ih hg (by rw [past_rest]; exact hstray)
      fun x hx => hne x (List.mem_cons_of_mem g hx), past_line, past_column hfirst,
      hfirst, List.map_cons, List.foldl_cons]
    congr 1
    by_cases hfeed : (g.char == '\n') = true
    · rw [if_pos hfeed, if_pos hfeed, if_pos hfeed]
      rfl
    · rw [if_neg hfeed, if_neg hfeed, if_neg hfeed]
      rfl

end Cursor

/-- **The place of a scan and the place of the formatter** behind the text `before`, at the start of
`code`. -/
theorem place_of_shows {code before after : Bytes} {p : Position} (hcode : code = before ++ after)
    (hshows : (Cursor.ofSource code).Shows p) (hoffset : p.offset = before.length) :
    p.line = (Place.behind ⟨1, 0⟩ before).line + strayLineEnds before.length (Utf8.glyphs code)
      ∧ (strayLineEnds before.length (Utf8.glyphs code) = 0 →
        (⟨p.line, p.column⟩ : Place) = Place.behind ⟨1, 0⟩ before) := by
  obtain ⟨d, ⟨gs, hgs⟩, rfl⟩ := hshows
  have hdec : Utf8.IsDecoding (Cursor.ofSource code).rest := Utf8.isDecoding_glyphs code
  have hleft := hgs.isDecoding_left hdec
  -- what was read is the text, because there are as many bytes of it
  have hbytes : gs.flatMap (·.bytes) = before := by
    have hsplit : gs.flatMap (·.bytes) ++ d.rest.flatMap (·.bytes) = before ++ after := by
      rw [← List.flatMap_append, ← hgs.rest_eq, ← hcode]
      exact Utf8.bytes_glyphs code
    have hlength : (gs.flatMap (·.bytes)).length = before.length := by
      rw [← hgs.offset_eq_length]
      exact Int.ofNat.inj hoffset
    exact List.append_inj_left hsplit hlength
  have hline := hgs.line_eq hleft.bytes_ne_nil
  have hplace := hgs.place_eq hleft
  rw [hbytes] at hline hplace
  refine ⟨?_, hplace⟩
  rw [Place.line_behind, Utf8.chars, ← hbytes,
    show Utf8.glyphs (gs.flatMap (·.bytes)) = gs from hleft, hbytes]
  show ((d.line : Nat) : Int) = _
  rw [hline]
  push_cast
  rfl

namespace Layout

variable {indent : Bytes} {s : LayoutState} {pending : Bytes} {t : Token} {next : Option Token}

/-! ## Where texts start -/

/-- The output before each text that has a mapping, in what is written behind `before`. -/
def textStarts : (before : Bytes) → List Emission → List Bytes
  | _, [] => []
  | before, e :: rest =>
    (e.original.toList.map fun _ => before ++ e.gap.flatten)
      ++ textStarts (before ++ e.gap.flatten ++ e.text ++ e.after.flatten) rest

theorem textStarts_cons {before : Bytes} {rest : List Token} :
    textStarts before (emissionsFrom indent s (t :: rest)) =
      ((step indent s t rest.head?).1.original.toList.map fun _ =>
        before ++ (step indent s t rest.head?).1.gap.flatten)
      ++ textStarts (before ++ (step indent s t rest.head?).1.gap.flatten ++
          (step indent s t rest.head?).1.text ++ (step indent s t rest.head?).1.after.flatten)
          (emissionsFrom indent (step indent s t rest.head?).2 rest) := rfl

theorem prefix_of_mem_textStarts {es : List Emission} {before x : Bytes}
    (h : x ∈ textStarts before es) : x <+: before ++ es.flatMap Emission.bytes := by
  induction es generalizing before with
  | nil => cases h
  | cons e rest ih =>
    have hsplit : before ++ (e :: rest).flatMap Emission.bytes =
        before ++ e.gap.flatten ++ (e.text ++ e.after.flatten ++ rest.flatMap Emission.bytes) := by
      rw [List.flatMap_cons, Emission.bytes]
      simp only [List.append_assoc]
    rw [textStarts] at h
    rcases List.mem_append.mp h with h | h
    · obtain ⟨_, _, rfl⟩ := List.mem_map.mp h
      rw [hsplit]
      exact List.prefix_append _ _
    · have hrest := ih h
      rw [hsplit]
      simpa only [List.append_assoc] using hrest

/-- The places of the mappings are those of the texts. -/
theorem generated_mappingsFrom {o : Options} {p : Place} {es : List Emission} {before : Bytes}
    (h : AllSeamless before es) : (mappingsFrom o (p.behind before) es).map (·.generated) =
      (textStarts before es).map fun x => o.generatedPlace (p.behind x) := by
  induction es generalizing before with
  | nil => rfl
  | cons e rest ih =>
    rw [mappingsFrom_cons h.1, textStarts, List.map_append, List.map_append, ih h.2]
    cases e.original with
    | none => rfl
    | some start => rfl

theorem original_step (t : Token) : (step indent s t next).1.original =
    if t.isComment = true ∨ t.kind = .eof then none else some t.start := by
  cases hc : t.isComment with
  | true =>
    rw [step_comment hc]
    rfl
  | false =>
    by_cases hk : t.kind = .eof
    · rw [step_eof hk, if_pos (Or.inr hk)]
    · rw [step_plain hc hk, if_neg (not_or.mpr ⟨Bool.false_ne_true, hk⟩)]
      rfl

/-- The tokens that have a mapping. -/
def mapped (tokens : List Token) : List Token :=
  tokens.filter fun t => !t.isComment && t.kind != .eof

theorem mapped_cons (t : Token) (rest : List Token) : mapped (t :: rest) =
    if t.isComment = true ∨ t.kind = .eof then mapped rest else t :: mapped rest := by
  unfold mapped
  by_cases h : t.isComment = true ∨ t.kind = .eof
  · rw [if_pos h, List.filter_cons_of_neg]
    rcases h with h | h
    · simp [h]
    · simp [h]
  · rw [if_neg h, List.filter_cons_of_pos]
    simpa [not_or] using h

/-- **The tokens of the output start where their texts were written.** -/
theorem offsets_readBack {start : Position} {tokens tokens' : List Token}
    (h : ReadBack indent s pending start tokens tokens') {before : Bytes}
    (hstart : start.offset = before.length) : (mapped tokens').map (·.start.offset) =
      (textStarts (before ++ pending) (emissionsFrom indent s tokens)).map
        fun x => (x.length : Int) := by
  induction h generalizing before with
  | @token s pending start t t' rest rest' hne hread hrest ih =>
    have hoffset := hread.startOffset
    have hstop := hread.stopOffset
    have hkind : t'.isComment = t.isComment := Token.isComment_of_kind hread.kind
    -- the white space behind the token is pending in front of the next one
    have hnext := @ih (before ++ pending ++ (step indent s t rest.head?).1.gap.flatten ++
      (step indent s t rest.head?).1.text) (by
        rw [hstop, hoffset, hstart]
        simp only [List.length_append]
        push_cast
        omega)
    rw [textStarts_cons, original_step, mapped_cons, hkind, hread.kind]
    split
    next => exact hnext
    next =>
      rw [List.map_cons, hnext, hoffset, hstart]
      simp only [Option.toList_some, List.map_cons, List.map_nil, List.singleton_append,
        List.length_append]
      push_cast
      rw [Int.add_assoc]
  | @eof s pending start t t' hkind hkind' _ =>
    rw [textStarts_cons, original_step, mapped_cons, if_pos (Or.inr hkind),
      if_pos (Or.inr hkind')]
    rfl

/-- Two lists that come from a third one go together. -/
theorem forall₂_of_map_eq {α β γ δ ε : Type} {f : α → δ} {g : β → ε} {u : γ → δ} {v : γ → ε}
    {R : α → β → Prop} {as : List α} {bs : List β} {xs : List γ} (has : as.map f = xs.map u)
    (hbs : bs.map g = xs.map v)
    (h : ∀ x ∈ xs, ∀ a ∈ as, ∀ b ∈ bs, f a = u x → g b = v x → R a b) :
    List.Forall₂ R as bs := by
  induction xs generalizing as bs with
  | nil =>
    rw [List.map_eq_nil_iff.mp has, List.map_eq_nil_iff.mp hbs]
    exact .nil
  | cons x xs ih =>
    obtain ⟨a, as, rfl, hx, has⟩ := List.map_eq_cons_iff.mp has
    obtain ⟨b, bs, rfl, hy, hbs⟩ := List.map_eq_cons_iff.mp hbs
    refine .cons (h x List.mem_cons_self a List.mem_cons_self b List.mem_cons_self hx hy) ?_
    exact ih has hbs fun y hy a ha b hb =>
      h y (List.mem_cons_of_mem x hy) a (List.mem_cons_of_mem _ ha) b (List.mem_cons_of_mem _ hb)

end Layout

/-- **A mapping is right exactly if no stray line end stands before its token** in the output.
There is one mapping for each token of the output that is neither a comment nor the end, in the
same order; its line is short by the number of stray line ends, and if there are none its place is
the token's. -/
theorem format_generated_iff (o : Options) {source : Bytes} {tokens tokens' : List Token}
    (hindent : Layout.IsBlank o.indent) (hline : o.generatedStartLine ≤ 0)
    (h : tokenize source = .ok tokens)
    (h' : tokenize (formatTokens o tokens).code = .ok tokens')
    (hsame : codeContents tokens' = codeContents tokens) :
    ∃ f, format o source = .ok f ∧ List.Forall₂ (fun (m : Mapping) (t : Token) =>
      t.start.line = m.generated.line + straysBefore f.code t.start.offset
        ∧ (m.generated = ⟨t.start.line, t.start.column⟩ ↔
          straysBefore f.code t.start.offset = 0))
      f.mappings (Layout.mapped tokens') := by
  refine ⟨formatTokens o tokens, by rw [format, h], ?_⟩
  have hsource := tokenize_lexed h
  obtain ⟨start, hstart, hread⟩ := Layout.readBack_format hindent h h' hsame
  have hoffsets := Layout.offsets_readBack hread hstart
  rw [List.append_nil] at hoffsets
  have hcode := Layout.code_formatTokens (o := o) hsource
  have hmappings : (formatTokens o tokens).mappings.map (·.generated) =
      (Layout.textStarts (Layout.leading o) (Layout.emissionsFrom o.indent {} tokens)).map
        fun x => o.generatedPlace (Place.behind ⟨1, 0⟩ x) := by
    have hseam : Layout.AllSeamless (Layout.leading o) (Layout.emissionsFrom o.indent {} tokens) :=
      Layout.allSeamless_of_lexedSource hsource (Layout.leading o)
    rw [← Layout.generated_mappingsFrom hseam, Layout.mappings_formatTokens hsource]
  -- both lists run along the texts that were written
  refine Layout.forall₂_of_map_eq hmappings hoffsets fun x hx m _ t ht hm hoffset => ?_
  obtain ⟨after, hafter⟩ := Layout.prefix_of_mem_textStarts hx
  have hshows := (tokenize_covers h' t (List.mem_filter.mp ht).1).1
  obtain ⟨hline', hplace⟩ := place_of_shows (hcode.trans hafter.symm) hshows hoffset
  have hgenerated : o.generatedPlace (Place.behind ⟨1, 0⟩ x) = Place.behind ⟨1, 0⟩ x := by
    unfold Options.generatedPlace Options.shiftLine
    rw [if_neg (Int.not_lt.mpr hline)]
  rw [hgenerated] at hm
  rw [straysBefore, hoffset, Int.toNat_natCast, hm]
  refine ⟨hline', fun he => ?_, fun hstray => (hplace hstray).symm⟩
  rw [he] at hline'
  dsimp only at hline'
  omega

theorem format_generated_iff_carriage_return :
    ∃ f, format { indent := utf8 "  " } (utf8 "\x60\r\x60") = .ok f
      ∧ List.Forall₂ (fun (m : Mapping) (t : Token) =>
        t.start.line = m.generated.line + straysBefore f.code t.start.offset
          ∧ (m.generated = ⟨t.start.line, t.start.column⟩ ↔
            straysBefore f.code t.start.offset = 0))
        f.mappings (Layout.mapped [⟨.punct .backQuote, [], ⟨1, 0, 0⟩, ⟨1, 1, 1⟩⟩,
          ⟨.template, [0x0D], ⟨1, 1, 1⟩, ⟨2, 0, 2⟩⟩,
          ⟨.punct .backQuote, [], ⟨2, 0, 2⟩, ⟨2, 1, 3⟩⟩, ⟨.eof, [], ⟨3, 0, 4⟩, ⟨3, 0, 4⟩⟩]) :=
  @format_generated_iff { indent := utf8 "  " } (utf8 "\x60\r\x60")
    [⟨.punct .backQuote, [], ⟨1, 0, 0⟩, ⟨1, 1, 1⟩⟩, ⟨.template, [0x0D], ⟨1, 1, 1⟩, ⟨2, 0, 2⟩⟩,
      ⟨.punct .backQuote, [], ⟨2, 0, 2⟩, ⟨2, 1, 3⟩⟩, ⟨.eof, [], ⟨2, 1, 3⟩, ⟨2, 1, 3⟩⟩] _
    (fun _ hb => Or.inl (List.eq_of_mem_replicate (show _ ∈ List.replicate 2 0x20 from hb)))
    (by decide) (by decide +kernel) (by decide +kernel) (by decide +kernel)

/-- Behind a carriage return in a template literal, the mapping is on the wrong line. -/
theorem format_generated_ne_carriage_return :
    ∃ f tokens tokens' m t, tokenize (utf8 "\x60\r\x60") = .ok tokens
      ∧ format { indent := utf8 "  " } (utf8 "\x60\r\x60") = .ok f
      ∧ tokenize f.code = .ok tokens' ∧ codeContents tokens' = codeContents tokens
      ∧ f.mappings[2]? = some m ∧ (Layout.mapped tokens')[2]? = some t
      ∧ m.generated ≠ ⟨t.start.line, t.start.column⟩ := by
  have htokens : tokenize (utf8 "\x60\r\x60") = .ok [⟨.punct .backQuote, [], ⟨1, 0, 0⟩, ⟨1, 1, 1⟩⟩,
      ⟨.template, [0x0D], ⟨1, 1, 1⟩, ⟨2, 0, 2⟩⟩, ⟨.punct .backQuote, [], ⟨2, 0, 2⟩, ⟨2, 1, 3⟩⟩,
      ⟨.eof, [], ⟨2, 1, 3⟩, ⟨2, 1, 3⟩⟩] := by
    decide +kernel
  have htokens' : tokenize (utf8 "\x60\r\x60\n") = .ok [
      ⟨.punct .backQuote, [], ⟨1, 0, 0⟩, ⟨1, 1, 1⟩⟩, ⟨.template, [0x0D], ⟨1, 1, 1⟩, ⟨2, 0, 2⟩⟩,
      ⟨.punct .backQuote, [], ⟨2, 0, 2⟩, ⟨2, 1, 3⟩⟩, ⟨.eof, [], ⟨3, 0, 4⟩, ⟨3, 0, 4⟩⟩] := by
    decide +kernel
  have hcode : (formatTokens { indent := utf8 "  " } [⟨.punct .backQuote, [], ⟨1, 0, 0⟩, ⟨1, 1, 1⟩⟩,
      ⟨.template, [0x0D], ⟨1, 1, 1⟩, ⟨2, 0, 2⟩⟩, ⟨.punct .backQuote, [], ⟨2, 0, 2⟩, ⟨2, 1, 3⟩⟩,
      ⟨.eof, [], ⟨2, 1, 3⟩, ⟨2, 1, 3⟩⟩]).code = utf8 "\x60\r\x60\n" := by
    decide +kernel
  refine ⟨formatTokens _ _, _, _, ⟨⟨1, 2⟩, ⟨2, 0⟩, [], []⟩,
    ⟨.punct .backQuote, [], ⟨2, 0, 2⟩, ⟨2, 1, 3⟩⟩, htokens, by rw [format, htokens],
    by rw [hcode, htokens'], by decide +kernel, by decide +kernel, by decide +kernel, by decide⟩

end ScriptTidy
