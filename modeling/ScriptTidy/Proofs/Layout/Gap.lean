import ScriptTidy.Layout.Emission
import Mathlib.Data.List.Forall2

/-!
# The white space before a token

`Layout.gapBefore` goes through its rules in a fixed order. The first ones look at kinds and
open frames only (`Layout.gapOfKinds`), then comes the one rule that looks at the lines of the
input, and last the indentation or the space that is still missing (`Layout.finishGap`). The
proofs about the layout all start from this split (`gapBefore_eq`).

* `Gap.Tracks` : the flag of a gap says whether a new line was started, in the gap itself or in
  the white space that was already written.
* `mem_gapBefore` : a line feed stands between two texts exactly if one of the rules asked for
  a new line, whatever the indentation is made of.
-/

namespace ScriptTidy

namespace Rules

/-- Whether a statement ends at a line break between `l` and a token of this kind. -/
def endsAtBreak (kind : Kind) (l : LastToken) : Bool :=
  decide (l.kind = .keyword .returnKw ∨ (l.kind = .name ∧ l.value = utf8 "yield"))
    || !(cannotEndStatement l.kind || cannotStartStatement kind)

theorem endsStatement_none (kind : Kind) (line : Int) : endsStatement kind line none = false :=
  rfl

theorem endsStatement_some (kind : Kind) (line : Int) (l : LastToken) :
    endsStatement kind line (some l) = (decide (l.stopLine < line) && endsAtBreak kind l) := by
  unfold endsStatement endsAtBreak
  by_cases hline : line ≤ l.stopLine
  · simp [hline, Int.not_lt.mpr hline]
  · have hlt : l.stopLine < line := by omega
    by_cases hkind : l.kind = .keyword .returnKw ∨ (l.kind = .name ∧ l.value = utf8 "yield")
    · simp [hline, hlt, hkind]
    · simp [hline, hlt, hkind]

end Rules

namespace Gap

/-- The flag of the gap says whether a new line was started, where `pending` is the white space
written before the gap. -/
def Tracks (pending : Bytes) (g : Gap) : Prop :=
  g.newline = true ↔ 0x0A ∈ pending ++ g.pieces.flatten

variable {pending : Bytes} {g : Gap}

theorem Tracks.addNewline (g : Gap) (pending : Bytes) : g.addNewline.Tracks pending := by
  simp [Tracks, Gap.addNewline]

theorem Tracks.ensureNewline (h : g.Tracks pending) : g.ensureNewline.Tracks pending := by
  unfold Gap.ensureNewline
  split
  · exact h
  · exact Tracks.addNewline g pending

theorem newline_ensureNewline (g : Gap) : g.ensureNewline.newline = true := by
  unfold Gap.ensureNewline
  split
  next h => exact h
  next => rfl

theorem ensureNewline_of_newline (h : g.newline = true) : g.ensureNewline = g := if_pos h

end Gap

namespace Layout

/-- The white space before a token as far as kinds and open frames decide it. -/
def gapOfKinds (s : LayoutState) (kind : Kind) (frames : List Frame) : Gap :=
  let lastKind := s.last.map (·.kind)
  let g : Gap := { newline := s.addedNewline, space := s.addedSpace }
  let g := if lastKind = some (.punct .braceR) then afterBrace kind frames g else g
  let g := if closesSpaced kind frames then g.addSpace else g
  if kind = .keyword .elseKw ∧ lastKind.isSome ∧ lastKind ≠ some (.punct .braceR)
      ∧ lastKind ≠ some (.punct .dot)
    then g.addSpace else g

/-- Whether a new line has to start before a token: a statement or a body ends there. -/
def breaksLine (s : LayoutState) (kind : Kind) (startLine : Int) (frames : List Frame) : Bool :=
  Rules.endsStatement kind startLine s.last || Frame.dedents kind frames

/-- The level at which a line that starts with a token of kind `kind` is indented. -/
def lineLevel (kind : Kind) (level : Int) : Int :=
  if kind = .keyword .caseKw ∨ kind = .keyword .defaultKw then level - 1 else level

/-- The white space `g` with what is still missing: the indentation of a new line, or a
space. -/
def finishGap (indent : Bytes) (level : Int) (needsSpace : Bool) (g : Gap) : List Bytes :=
  if g.newline then g.pieces ++ [indentation indent level]
  else if !g.space && needsSpace then g.pieces ++ [[0x20]]
  else g.pieces

theorem gapBefore_eq (indent : Bytes) (s : LayoutState) (kind : Kind) (startLine : Int)
    (frames : List Frame) (level : Int) :
    gapBefore indent s kind startLine frames level =
      finishGap indent (lineLevel kind level) (Rules.needsSpace kind s.last)
        (if breaksLine s kind startLine frames then (gapOfKinds s kind frames).ensureNewline
          else gapOfKinds s kind frames) := rfl

theorem closesSpaced_kind {kind : Kind} {frames : List Frame}
    (h : closesSpaced kind frames = true) : kind = .punct .colon ∨ kind = .punct .braceR := by
  simp only [closesSpaced, Bool.or_eq_true, Bool.and_eq_true, beq_iff_eq] at h
  exact h.imp And.left And.left

/-- What a closing brace puts before the next token: a space, which is then the only one,
nothing, or a new line. -/
theorem afterBrace_cases (kind : Kind) (frames : List Frame) (g : Gap) :
    (afterBrace kind frames g = g.addSpace ∧ closesSpaced kind frames = false)
      ∨ afterBrace kind frames g = g ∨ afterBrace kind frames g = g.addNewline := by
  unfold afterBrace
  split
  next hstays =>
    refine Or.inl ⟨rfl, Bool.eq_false_iff.mpr fun hc => ?_⟩
    have hword : kind.isKeyword = true := by
      rcases hstays with ⟨rfl, _⟩ | h
      · rfl
      · unfold Rules.continuesAfterBrace at h
        split at h
        all_goals first | rfl | cases h
    rcases closesSpaced_kind hc with rfl | rfl <;> cases hword
  next =>
    split
    · exact Or.inr (Or.inl rfl)
    · exact Or.inr (Or.inr rfl)

/-- **All that kinds and frames can ask for**: nothing, a space, or behind a closing brace a new
line that may have a space behind it. -/
theorem gapOfKinds_cases (s : LayoutState) (kind : Kind) (frames : List Frame) :
    gapOfKinds s kind frames = ⟨[], s.addedNewline, s.addedSpace⟩
      ∨ gapOfKinds s kind frames = ⟨[[0x20]], s.addedNewline, true⟩
      ∨ s.last.map (·.kind) = some (.punct .braceR)
        ∧ (gapOfKinds s kind frames = ⟨[[0x0A]], true, s.addedSpace⟩
          ∨ gapOfKinds s kind frames = ⟨[[0x0A], [0x20]], true, true⟩) := by
  unfold gapOfKinds
  dsimp only
  by_cases hbrace : s.last.map (·.kind) = some (.punct .braceR)
  · -- the rule for `else` does not apply behind a brace
    rw [if_neg fun h => h.2.2.1 hbrace, if_pos hbrace]
    rcases afterBrace_cases kind frames ⟨[], s.addedNewline, s.addedSpace⟩ with
      ⟨he, hspaced⟩ | he | he
    · rw [he, if_neg (by rw [hspaced]; exact Bool.false_ne_true)]
      exact Or.inr (Or.inl rfl)
    · rw [he]
      split
      · exact Or.inr (Or.inl rfl)
      · exact Or.inl rfl
    · rw [he]
      split
      · exact Or.inr (Or.inr ⟨hbrace, Or.inr rfl⟩)
      · exact Or.inr (Or.inr ⟨hbrace, Or.inl rfl⟩)
  · rw [if_neg hbrace]
    by_cases hspaced : closesSpaced kind frames = true
    · have helse : kind ≠ .keyword .elseKw := by
        rintro rfl
        rcases closesSpaced_kind hspaced with h | h <;> cases h
      rw [if_neg fun h => helse h.1, if_pos hspaced]
      exact Or.inr (Or.inl rfl)
    · rw [if_neg hspaced]
      split
      · exact Or.inr (Or.inl rfl)
      · exact Or.inl rfl

theorem tracks_gapOfKinds {pending : Bytes} {s : LayoutState} (kind : Kind)
    (frames : List Frame) (h : s.addedNewline = true ↔ 0x0A ∈ pending) :
    (gapOfKinds s kind frames).Tracks pending := by
  unfold Gap.Tracks
  rcases gapOfKinds_cases s kind frames with he | he | ⟨_, he | he⟩
  all_goals
    rw [he]
    simp [h]

theorem mem_finishGap {pending : Bytes} {g : Gap} (indent : Bytes) (level : Int)
    (needsSpace : Bool) (h : g.Tracks pending) :
    0x0A ∈ pending ++ (finishGap indent level needsSpace g).flatten ↔ g.newline = true := by
  unfold finishGap
  split
  next hn =>
    have := h.mp hn
    simp only [List.mem_append, List.flatten_append] at this ⊢
    tauto
  next hn =>
    split
    · simpa [Gap.Tracks] using h.symm
    · exact h.symm

/-- **A line feed stands between two texts exactly if a rule asked for a new line.** The
indentation may itself be made of line feeds: it is written on new lines only. -/
theorem mem_gapBefore {pending : Bytes} {s : LayoutState} (indent : Bytes) (kind : Kind)
    (startLine : Int) (frames : List Frame) (level : Int)
    (h : s.addedNewline = true ↔ 0x0A ∈ pending) :
    0x0A ∈ pending ++ (gapBefore indent s kind startLine frames level).flatten ↔
      (gapOfKinds s kind frames).newline = true ∨ breaksLine s kind startLine frames = true := by
  have ht := tracks_gapOfKinds kind frames h
  rw [gapBefore_eq]
  by_cases hb : breaksLine s kind startLine frames = true
  · rw [if_pos hb, mem_finishGap _ _ _ ht.ensureNewline]
    simp [Gap.newline_ensureNewline, hb]
  · rw [if_neg hb, mem_finishGap _ _ _ ht]
    simp [hb]

/-- Behind anything but a closing brace, the rules for kinds and frames start no line. -/
theorem newline_gapOfKinds {s : LayoutState} {kind : Kind} {frames : List Frame}
    (h : s.last.map (·.kind) ≠ some (.punct .braceR)) :
    (gapOfKinds s kind frames).newline = s.addedNewline := by
  rcases gapOfKinds_cases s kind frames with he | he | ⟨hlast, _⟩
  · rw [he]
  · rw [he]
  · exact absurd hlast h

/-- **Where a line break ends the statement, a line feed is written exactly if there is one.** -/
theorem mem_gapBefore_endsAtBreak {indent : Bytes} {s : LayoutState} {l : LastToken} {kind : Kind}
    {startLine level : Int} {frames : List Frame} (hlast : s.last = some l)
    (hbrace : l.kind ≠ .punct .braceR) (hnewline : s.addedNewline = false)
    (hdedents : Frame.dedents kind frames = false) (hbreak : Rules.endsAtBreak kind l = true) :
    0x0A ∈ (gapBefore indent s kind startLine frames level).flatten ↔ l.stopLine < startLine := by
  have hflag : s.addedNewline = true ↔ (0x0A : UInt8) ∈ ([] : Bytes) := by
    rw [hnewline]
    exact iff_of_false Bool.false_ne_true List.not_mem_nil
  have hkind : s.last.map (·.kind) ≠ some (.punct .braceR) := by
    rw [hlast]
    exact fun h => hbrace (Option.some_inj.mp h)
  refine (mem_gapBefore indent kind startLine frames level hflag).trans ?_
  rw [newline_gapOfKinds hkind, breaksLine, hdedents, hlast, Rules.endsStatement_some, hbreak,
    hnewline]
  simp

/-! ## What gaps are made of -/

/-- A line feed, a space or an indentation. -/
def IsPiece (indent piece : Bytes) : Prop :=
  piece = [0x0A] ∨ piece = [0x20] ∨ ∃ level, piece = indentation indent level

/-- **A gap is made of new lines and spaces, and at most one indentation at its end**, which
stands at the start of a line. -/
theorem gapBefore_cases (indent : Bytes) (s : LayoutState) (kind : Kind) (line : Int)
    (frames : List Frame) (level : Int) :
    ∃ pieces, (∀ piece ∈ pieces, piece = [0x0A] ∨ piece = [0x20])
      ∧ (gapBefore indent s kind line frames level = pieces
        ∨ gapBefore indent s kind line frames level =
            pieces ++ [indentation indent (lineLevel kind level)]
          ∧ (pieces = [] → s.addedNewline = true)) := by
  -- Up to the last rule the gap has only line feeds and spaces.
  rw [gapBefore_eq]
  generalize hg : (if breaksLine s kind line frames then (gapOfKinds s kind frames).ensureNewline
    else gapOfKinds s kind frames) = g
  have hpieces : (∀ piece ∈ g.pieces, piece = [0x0A] ∨ piece = [0x20])
      ∧ (g.pieces = [] → g.newline = s.addedNewline) := by
    rw [← hg]
    rcases gapOfKinds_cases s kind frames with he | he | ⟨_, he | he⟩
    all_goals
      rw [he]
      simp only [Gap.ensureNewline, Gap.addNewline]
      split
      · split
        · simp
        · simp
      · simp
  unfold finishGap
  split
  next hnew =>
    exact ⟨g.pieces, hpieces.1, Or.inr ⟨rfl, fun hnil => (hpieces.2 hnil).symm.trans hnew⟩⟩
  next =>
    split
    · refine ⟨g.pieces ++ [[0x20]], fun piece hp => ?_, Or.inl rfl⟩
      rcases List.mem_append.mp hp with hp | hp
      · exact hpieces.1 piece hp
      · exact Or.inr (List.mem_singleton.mp hp)
    · exact ⟨g.pieces, hpieces.1, Or.inl rfl⟩

theorem isPiece_gapBefore {indent : Bytes} {s : LayoutState} {kind : Kind} {line level : Int}
    {frames : List Frame} : ∀ piece ∈ gapBefore indent s kind line frames level,
      IsPiece indent piece := by
  obtain ⟨pieces, hpieces, hgap⟩ := gapBefore_cases indent s kind line frames level
  have hplain : ∀ piece ∈ pieces, IsPiece indent piece := fun piece hp =>
    (hpieces piece hp).imp id Or.inl
  rcases hgap with he | ⟨he, _⟩
  · rw [he]
    exact hplain
  · rw [he]
    intro piece hp
    rcases List.mem_append.mp hp with hp | hp
    · exact hplain piece hp
    · exact Or.inr (Or.inr ⟨_, List.mem_singleton.mp hp⟩)

theorem mem_indentation {indent : Bytes} {level : Int} {b : UInt8}
    (h : b ∈ indentation indent level) : b ∈ indent := by
  unfold indentation Bytes.replicate at h
  obtain ⟨piece, hpiece, hb⟩ := List.mem_flatten.mp h
  rw [List.eq_of_mem_replicate hpiece] at hb
  exact hb

/-- Where nothing is written, no rule asked for anything. -/
theorem gapBefore_eq_nil {indent : Bytes} {s : LayoutState} {kind : Kind} {line level : Int}
    {frames : List Frame} (hnewline : s.addedNewline = false) (hspace : s.addedSpace = false)
    (h : (gapBefore indent s kind line frames level).flatten = []) :
    Rules.needsSpace kind s.last = false ∧ breaksLine s kind line frames = false
      ∧ (gapOfKinds s kind frames).pieces = [] := by
  rw [gapBefore_eq] at h
  rcases gapOfKinds_cases s kind frames with he | he | ⟨_, he | he⟩
  · rw [he, hnewline, hspace] at h ⊢
    by_cases hbreaks : breaksLine s kind line frames = true
    · simp [hbreaks, Gap.ensureNewline, Gap.addNewline, finishGap] at h
    · rw [if_neg hbreaks] at h
      by_cases hneeds : Rules.needsSpace kind s.last = true
      · simp [hneeds, finishGap] at h
      · exact ⟨Bool.eq_false_iff.mpr hneeds, Bool.eq_false_iff.mpr hbreaks, rfl⟩
  all_goals
    exfalso
    rw [he] at h
    revert h
    simp only [finishGap, Gap.ensureNewline, Gap.addNewline]
    repeat' split
    all_goals simp

/-! ## Gaps between tokens without comments -/

/-- The white space that can stand between two tokens if there are no comments: none, a space,
or a new line with its indentation, with at most one space on one side of the line feed. -/
def IsBetween (indent gap : Bytes) : Prop :=
  ∃ n, gap ∈ [[], [0x20], 0x0A :: Bytes.replicate n indent,
    0x20 :: 0x0A :: Bytes.replicate n indent, 0x0A :: 0x20 :: Bytes.replicate n indent]

theorem isBetween_newline {indent : Bytes} : IsBetween indent [0x0A] :=
  ⟨0, by simp [Bytes.replicate]⟩

/-- **Two tokens never have more than one line feed between them**, counting the one that was
written behind the first. -/
theorem isBetween_gapBefore {indent pending : Bytes} {s : LayoutState} {kind : Kind}
    {line level : Int} {frames : List Frame} {broke : Bool} (hspace : s.addedSpace = false)
    (hnewline : s.addedNewline = broke) (hpending : pending = if broke then [0x0A] else [])
    (hbrace : broke = true → s.last.map (·.kind) ≠ some (.punct .braceR)) :
    IsBetween indent (pending ++ (gapBefore indent s kind line frames level).flatten) := by
  refine ⟨(lineLevel kind level).toNat, ?_⟩
  rw [gapBefore_eq, hpending]
  cases broke with
  | true =>
    -- A line was started behind the last token, so it is no brace and no rule starts another.
    have hcases : gapOfKinds s kind frames = ⟨[], true, false⟩
        ∨ gapOfKinds s kind frames = ⟨[[0x20]], true, true⟩ := by
      rcases gapOfKinds_cases s kind frames with he | he | ⟨hlast, _⟩
      · exact Or.inl (by rw [he, hnewline, hspace])
      · exact Or.inr (by rw [he, hnewline])
      · exact absurd hlast (hbrace rfl)
    rcases hcases with he | he
    all_goals
      rw [he, Gap.ensureNewline_of_newline rfl, ite_self]
      simp [finishGap, indentation]
  | false =>
    rcases gapOfKinds_cases s kind frames with he | he | ⟨_, he | he⟩
    all_goals
      rw [he]
      simp only [finishGap, Gap.ensureNewline, Gap.addNewline, hnewline, hspace]
      cases breaksLine s kind line frames with
      | true => simp [indentation]
      | false =>
        cases Rules.needsSpace kind s.last with
        | true => simp [indentation]
        | false => simp [indentation]

end Layout

end ScriptTidy
