import ScriptTidy.Proofs.Layout.Neighbours
import ScriptTidy.Proofs.Scanner.Cover

/-!
# Token lists without their end

A list of tokens may lack its end, which is then assumed. The token before the end can tell the two
cases apart, since with the end it has a token after it and without the end it has none. This file
proves that only a block comment makes use of that, and only where the source ends on the last line
of the comment: it leaves a space for a token to come, and the end is not written there.

* `step_before_end` : any other token is written the same before the end and before nothing.
* `finished_end` : a run over a list with its end is the run over the list without it.
* `formatTokens_withoutEnd` : what this means for the tokens of a source.
-/

namespace ScriptTidy

namespace Layout

variable {indent : Bytes} {s : LayoutState} {t e : Token}

theorem isInline_none (t : Token) : isInline t none = false := Bool.and_false _

theorem isComment_eof (he : e.kind = .eof) : e.isComment = false := by
  rw [Token.isComment, he]
  rfl

/-- **Before the end a token is written as before nothing**, a comment that is followed on its last
line apart. -/
theorem step_before_end (he : e.kind = .eof) (ht : isInline t (some e) = false) :
    step indent s t (some e) = step indent s t none := by
  cases hc : t.isComment with
  | true => rw [step_comment hc, step_comment hc, ht, isInline_none]
  | false =>
    by_cases hk : t.kind = .eof
    · rw [step_eof hk, step_eof hk]
    · have hfollows : commentFollows t (some e) = commentFollows t none := by
        rw [commentFollows_eq_false fun n hn => Option.some_inj.mp hn ▸ isComment_eof he]
        rfl
      rw [step_plain hc hk, step_plain hc hk]
      unfold plain
      rw [hfollows]

/-- The end itself is written as one that is assumed. -/
theorem finished_end_only (he : e.kind = .eof) : finished indent s [e] = finished indent s [] := by
  have hlast : [e].getLast?.any (·.kind == .eof) = true := beq_iff_eq.mpr he
  unfold finished
  rw [if_pos hlast, List.append_nil]
  show [(step indent s e none).1] = [(step indent s endToken none).1]
  rw [step_eof he, step_eof rfl]

variable {ts : List Token}

/-- A run over a list is a run over all but its last token and a step at that token. -/
theorem finished_concat (indent : Bytes) (s : LayoutState) (hts : ∀ u ∈ ts, u.kind ≠ .eof)
    {last : Token} (hlast : last ∈ ts.getLast?) :
    ∃ es s', ∀ rest, finished indent s (ts ++ rest) =
      es ++ (step indent s' last rest.head?).1 ::
        finished indent (step indent s' last rest.head?).2 rest := by
  obtain ⟨before, rfl⟩ := List.getLast?_eq_some_iff.mp hlast
  have hkind := hts last (List.mem_append_right _ (List.mem_singleton_self last))
  obtain ⟨es, s', -, -, hrun⟩ := finished_append indent s before last
  refine ⟨es, s', fun rest => ?_⟩
  rw [List.append_assoc, List.singleton_append, hrun, finished_cons fun h => absurd h hkind]

/-- **A run over a list with its end is a run over the list without it**, unless the last token is
a comment that is followed on its last line. -/
theorem finished_end (indent : Bytes) (s : LayoutState) (hts : ∀ u ∈ ts, u.kind ≠ .eof)
    (he : e.kind = .eof) (hinline : ∀ c ∈ ts.getLast?, isInline c (some e) = false) :
    finished indent s (ts ++ [e]) = finished indent s ts := by
  cases hlast : ts.getLast? with
  | none =>
    rw [List.getLast?_eq_none_iff.mp hlast]
    exact finished_end_only he
  | some last =>
    obtain ⟨es, s', hrun⟩ := finished_concat indent s hts hlast
    have hwithout := hrun []
    rw [List.append_nil] at hwithout
    rw [hrun, hwithout, List.head?_cons, List.head?_nil, step_before_end he (hinline last hlast),
      finished_end_only he]

/-- Behind such a comment stands a space and then the line end of the end, where without the end
the comment has a line end itself. -/
theorem finished_end_inline (indent : Bytes) (s : LayoutState) (hts : ∀ u ∈ ts, u.kind ≠ .eof)
    (he : e.kind = .eof) {c : Token} (hlast : c ∈ ts.getLast?)
    (hinline : isInline c (some e) = true) :
    ∃ es gap text,
      finished indent s (ts ++ [e]) =
        es ++ [{ gap, text, after := [[0x20]] }, { after := [[0x0A]] }]
      ∧ finished indent s ts = es ++ [{ gap, text, after := [[0x0A]] }, { after := [] }] := by
  have hcomment : c.isComment = true := by
    rw [Token.isComment, eq_of_beq (Bool.and_eq_true_iff.mp hinline).1]
    rfl
  obtain ⟨es, s', hrun⟩ := finished_concat indent s hts hlast
  have hwithout := hrun []
  rw [List.append_nil] at hwithout
  refine ⟨es, commentGap indent s' c, commentText indent s'.level c, ?_, ?_⟩
  · rw [hrun, List.head?_cons, step_comment hcomment, hinline, finished_end_only he]
    rfl
  · rw [hwithout, List.head?_nil, step_comment hcomment, isInline_none]
    rfl

theorem mappingsFrom_of_unmapped (o : Options) (p : Place) {es : List Emission}
    (h : ∀ x ∈ es, x.original = none) : mappingsFrom o p es = [] := by
  induction es generalizing p with
  | nil => rfl
  | cons x es ih =>
    unfold mappingsFrom
    rw [h x List.mem_cons_self]
    exact ih _ fun y hy => h y (List.mem_cons_of_mem x hy)

/-- What is written without a mapping has no part in the mappings. -/
theorem mappingsFrom_append_of_unmapped (o : Options) (p : Place) (es : List Emission)
    {more : List Emission} (h : ∀ x ∈ more, x.original = none) :
    mappingsFrom o p (es ++ more) = mappingsFrom o p es := by
  induction es generalizing p with
  | nil => exact mappingsFrom_of_unmapped o p h
  | cons x es ih =>
    rw [List.cons_append]
    unfold mappingsFrom
    dsimp only
    rw [ih]

end Layout

/-- The last of the tokens is a block comment, and the end stands on its last line. -/
def EndsBehindComment (front : List Token) (e : Token) : Prop :=
  ∃ c ∈ front.getLast?, c.kind = .blockComment ∧ e.start.line = c.stop.line

theorem endsBehindComment_iff {front : List Token} {e : Token} :
    EndsBehindComment front e ↔ ∃ c ∈ front.getLast?, Layout.isInline c (some e) = true := by
  unfold EndsBehindComment Layout.isInline
  simp only [Option.any_some, Bool.and_eq_true, beq_iff_eq]

/-- The tokens of a source are some tokens and one end behind them. -/
theorem end_of_tokenize {source : Bytes} {tokens : List Token} (h : tokenize source = .ok tokens) :
    ∃ front e, tokens = front ++ [e] ∧ e.kind = .eof ∧ ∀ t ∈ front, t.kind ≠ .eof := by
  obtain ⟨front, d, e, hfront, he, rfl⟩ := Scanner.tokenize_passes h
  exact ⟨front, e, rfl, by rw [he.token]; rfl, hfront.kind_ne_eof⟩

variable {front : List Token} {e : Token}

/-- What is written for a list with its end and without it: the same, or the same up to the space
and the line end behind a comment. -/
theorem formatTokens_end (o : Options) (hfront : ∀ t ∈ front, t.kind ≠ .eof) (he : e.kind = .eof) :
    (formatTokens o front).mappings = (formatTokens o (front ++ [e])).mappings
      ∧ (¬ EndsBehindComment front e →
        (formatTokens o front).code = (formatTokens o (front ++ [e])).code)
      ∧ (EndsBehindComment front e →
        ∃ code, (formatTokens o front).code = code ++ [0x0A]
          ∧ (formatTokens o (front ++ [e])).code = code ++ [0x20, 0x0A]) := by
  unfold formatTokens
  dsimp only
  rw [Layout.emissions_eq_finished, Layout.emissions_eq_finished]
  -- the end is only seen by a comment that would stay on one line with it
  by_cases h : EndsBehindComment front e
  · obtain ⟨c, hlast, hinline⟩ := endsBehindComment_iff.mp h
    obtain ⟨es, gap, text, hwith, hwithout⟩ :=
      Layout.finished_end_inline o.indent {} hfront he hlast hinline
    rw [hwith, hwithout]
    refine ⟨?_, fun hnot => absurd h hnot, fun _ =>
      ⟨(if o.leadingNewline then [0x0A] else []) ++ es.flatMap Emission.bytes ++ gap.flatten
        ++ text, ?_, ?_⟩⟩
    · rw [Layout.mappingsFrom_append_of_unmapped _ _ _ (by simp),
        Layout.mappingsFrom_append_of_unmapped _ _ _ (by simp)]
    · simp [Emission.bytes]
    · simp [Emission.bytes]
  · have hinline : ∀ c ∈ front.getLast?, Layout.isInline c (some e) = false := by
      intro c hlast
      rw [Bool.eq_false_iff]
      exact fun hinline => h (endsBehindComment_iff.mpr ⟨c, hlast, hinline⟩)
    rw [Layout.finished_end o.indent {} hfront he hinline]
    exact ⟨rfl, fun _ => rfl, fun hends => absurd hends h⟩

/-- **An end that is missing is assumed**: without its end, the list of tokens of a source has the
same mappings, and the same code unless the source ends on the last line of a block comment. There
the comment leaves a space for the end, which is written on a line of its own. -/
theorem formatTokens_withoutEnd (o : Options) {source : Bytes} {tokens : List Token}
    (h : tokenize source = .ok tokens) :
    ∃ front e, tokens = front ++ [e] ∧ e.kind = .eof
      ∧ (formatTokens o front).mappings = (formatTokens o tokens).mappings
      ∧ ((formatTokens o front).code = (formatTokens o tokens).code ↔ ¬ EndsBehindComment front e)
      ∧ (EndsBehindComment front e →
        ∃ code, (formatTokens o front).code = code ++ [0x0A]
          ∧ (formatTokens o tokens).code = code ++ [0x20, 0x0A]) := by
  obtain ⟨front, e, rfl, he, hfront⟩ := end_of_tokenize h
  obtain ⟨hmappings, hsame, hspace⟩ := formatTokens_end o hfront he
  refine ⟨front, e, rfl, he, hmappings, ⟨fun hcode hends => ?_, hsame⟩, hspace⟩
  obtain ⟨code, hwithout, hwith⟩ := hspace hends
  rw [hwithout, hwith] at hcode
  cases List.append_cancel_left hcode

/-- The name and the comment of `a/*x*/`. -/
def nameAndComment : List Token :=
  [⟨.name, utf8 "a", ⟨1, 0, 0⟩, ⟨1, 1, 1⟩⟩, ⟨.blockComment, utf8 "x", ⟨1, 1, 1⟩, ⟨1, 6, 6⟩⟩]

theorem formatTokens_withoutEnd_lineBehind :
    tokenize (utf8 "a/*x*/\n") = .ok (nameAndComment ++ [⟨.eof, [], ⟨2, 0, 7⟩, ⟨2, 0, 7⟩⟩])
    ∧ ∃ front e, nameAndComment ++ [⟨.eof, [], ⟨2, 0, 7⟩, ⟨2, 0, 7⟩⟩] = front ++ [e] ∧ e.kind = .eof
      ∧ (formatTokens { indent := utf8 "  " } front).mappings =
        (formatTokens { indent := utf8 "  " }
          (nameAndComment ++ [⟨.eof, [], ⟨2, 0, 7⟩, ⟨2, 0, 7⟩⟩])).mappings
      ∧ ((formatTokens { indent := utf8 "  " } front).code =
        (formatTokens { indent := utf8 "  " }
          (nameAndComment ++ [⟨.eof, [], ⟨2, 0, 7⟩, ⟨2, 0, 7⟩⟩])).code
            ↔ ¬ EndsBehindComment front e)
      ∧ (EndsBehindComment front e →
        ∃ code, (formatTokens { indent := utf8 "  " } front).code = code ++ [0x0A]
          ∧ (formatTokens { indent := utf8 "  " }
            (nameAndComment ++ [⟨.eof, [], ⟨2, 0, 7⟩, ⟨2, 0, 7⟩⟩])).code = code ++ [0x20, 0x0A]) :=
  have h : tokenize (utf8 "a/*x*/\n") =
      .ok (nameAndComment ++ [⟨.eof, [], ⟨2, 0, 7⟩, ⟨2, 0, 7⟩⟩]) := by decide +kernel
  ⟨h, formatTokens_withoutEnd { indent := utf8 "  " } h⟩

/-- The space behind a comment at the end of a source is not there without the end. -/
theorem formatTokens_withoutEnd_ne_comment :
    tokenize (utf8 "a/*x*/") = .ok (nameAndComment ++ [⟨.eof, [], ⟨1, 6, 6⟩, ⟨1, 6, 6⟩⟩])
      ∧ (formatTokens { indent := utf8 "  " }
          (nameAndComment ++ [⟨.eof, [], ⟨1, 6, 6⟩, ⟨1, 6, 6⟩⟩])).code = utf8 "a /*x*/ \n"
      ∧ (formatTokens { indent := utf8 "  " } nameAndComment).code = utf8 "a /*x*/\n" := by
  decide +kernel

end ScriptTidy
