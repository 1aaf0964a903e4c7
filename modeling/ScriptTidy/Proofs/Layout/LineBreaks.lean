import ScriptTidy.Layout.Basic
import ScriptTidy.Proofs.Layout.Steps

/-!
# The layout and the lines of its input

Of the positions of a comment-free input, the layout only asks whether a token starts on a
later line than the token before it ends. This file proves more: that question may even be
answered by the output. If every line break of a second input is a line break of the first or
one that the layout wrote there, both are written the same way.

* `LayoutState.endedOn` : the state with another line for the end of the last token; all that
  two runs on such inputs differ in.
* `gapBefore_endedOn` : one step. A new line that the layout started turns on the rule for line
  breaks in the second run, and one it left out turns it off; in each case the other rules, or
  the same rule, had decided already.
* `formatTokens_code_eq_of_linesAgree` : the whole run.
-/

namespace ScriptTidy

/-- The two tokens differ at most in where they stand. -/
def Token.SameContent (t u : Token) : Prop := t.kind = u.kind ∧ t.value = u.value

/-- There is a line break between the two tokens. -/
def Token.BreaksBefore (t u : Token) : Prop := t.stop.line < u.start.line

namespace Layout

/-- What is written between the texts of the tokens `i` and `i + 1`. -/
def between (es : List Emission) (i : Nat) : Bytes :=
  (es.getD i {}).after.flatten ++ (es.getD (i + 1) {}).gap.flatten

/-- Where `after` has a line break, `before` has one or the layout of `before` puts a new line
there, and conversely. It is enough to know this in front of tokens other than the end. -/
def LinesAgree (indent : Bytes) (before after : List Token) : Prop :=
  ∀ (i : Nat) (t u t' u' : Token), before[i]? = some t → before[i + 1]? = some u →
    after[i]? = some t' → after[i + 1]? = some u' → u.kind ≠ .eof →
    (t'.BreaksBefore u' ↔ t.BreaksBefore u)
      ∨ (t'.BreaksBefore u' ↔ 0x0A ∈ between (emissions indent before) i)

end Layout

/-- The state with the last token ending on the line `x`. -/
def LayoutState.endedOn (s : LayoutState) (x : Int) : LayoutState :=
  { s with last := s.last.map fun l => { l with stopLine := x } }

namespace Layout

variable {indent : Bytes} {s : LayoutState} {x : Int}

theorem last_kind_endedOn (s : LayoutState) (x : Int) :
    (s.endedOn x).last.map (·.kind) = s.last.map (·.kind) := by
  simp [LayoutState.endedOn, Function.comp_def]

theorem effectiveKind_endedOn (s : LayoutState) (x : Int) {t t' : Token}
    (h : t.SameContent t') : effectiveKind (s.endedOn x) t' = effectiveKind s t := by
  unfold effectiveKind LayoutState.endedOn
  rw [h.1]
  simp [Option.any_map]

theorem isArrayLiteral_endedOn (s : LayoutState) (x : Int) (kind : Kind) :
    Rules.isArrayLiteral kind (s.endedOn x).last = Rules.isArrayLiteral kind s.last := by
  unfold Rules.isArrayLiteral LayoutState.endedOn
  cases s.last with
  | none => rfl
  | some l => rfl

theorem needsSpace_endedOn (s : LayoutState) (x : Int) (kind : Kind) :
    Rules.needsSpace kind (s.endedOn x).last = Rules.needsSpace kind s.last := by
  unfold Rules.needsSpace LayoutState.endedOn
  cases s.last with
  | none => rfl
  | some l => rfl

theorem gapOfKinds_endedOn (s : LayoutState) (x : Int) (kind : Kind) (frames : List Frame) :
    gapOfKinds (s.endedOn x) kind frames = gapOfKinds s kind frames := by
  unfold gapOfKinds
  rw [last_kind_endedOn]
  rfl

/-- **One step of the second run writes the white space of the first.** The first case of the
hypothesis is a line break taken over from the input, the second one taken over from the
output. -/
theorem gapBefore_endedOn {pending : Bytes} {kind : Kind} {line line' level : Int}
    {frames : List Frame} (hpending : s.addedNewline = true ↔ 0x0A ∈ pending)
    (h : ∀ l, s.last = some l → (x < line' ↔ l.stopLine < line)
      ∨ (x < line' ↔ 0x0A ∈ pending ++ (gapBefore indent s kind line frames level).flatten)) :
    gapBefore indent (s.endedOn x) kind line' frames level =
      gapBefore indent s kind line frames level := by
  have hbreak : ∀ l, s.last = some l → (x < line' ↔ l.stopLine < line)
      ∨ (x < line' ↔ (gapOfKinds s kind frames).newline = true
        ∨ breaksLine s kind line frames = true) := by
    intro l hl
    rw [← mem_gapBefore indent kind line frames level hpending]
    exact h l hl
  rw [gapBefore_eq, gapBefore_eq, needsSpace_endedOn, gapOfKinds_endedOn]
  congr 1
  -- a new line that was started before makes the rule for line breaks idle
  by_cases hnew : (gapOfKinds s kind frames).newline = true
  · rw [Gap.ensureNewline_of_newline hnew, ite_self, ite_self]
  · have heq : breaksLine (s.endedOn x) kind line' frames = breaksLine s kind line frames := by
      cases hl : s.last with
      | none => simp [breaksLine, LayoutState.endedOn, hl, Rules.endsStatement_none]
      | some l =>
        have hx : Rules.endsAtBreak kind { l with stopLine := x } = Rules.endsAtBreak kind l :=
          rfl
        have hcases := hbreak l hl
        unfold breaksLine at hcases ⊢
        simp only [LayoutState.endedOn, hl, Option.map_some, Rules.endsStatement_some, hx]
          at hcases ⊢
        rcases hcases with hcase | hcase
        · simp only [hcase]
        · have hdecide : decide (x < line') = (decide (l.stopLine < line)
              && Rules.endsAtBreak kind l || Frame.dedents kind frames) := by
            rw [Bool.eq_iff_iff]
            simpa [hnew] using hcase
          rw [hdecide]
          cases Rules.endsAtBreak kind l <;> cases Frame.dedents kind frames <;> simp
    rw [heq]

/-! ## Steps -/

theorem plain_endedOn {pending : Bytes} {t t' : Token} {kind : Kind} {next next' : Option Token}
    (hsame : t.SameContent t') (hpending : s.addedNewline = true ↔ 0x0A ∈ pending)
    (hnext : ∀ n, next = some n → n.isComment = false)
    (hnext' : ∀ n, next' = some n → n.isComment = false)
    (h : ∀ l, s.last = some l → (x < t'.start.line ↔ l.stopLine < t.start.line)
      ∨ (x < t'.start.line ↔ 0x0A ∈ pending ++ (plain indent s t kind next).1.gap.flatten)) :
    (plain indent (s.endedOn x) t' kind next').1.bytes = (plain indent s t kind next).1.bytes
      ∧ (plain indent (s.endedOn x) t' kind next').2 =
        (plain indent s t kind next).2.endedOn t'.stop.line := by
  have htext : Token.text { t' with kind := kind } = Token.text { t with kind := kind } := by
    simp [Token.text, hsame.2]
  have hgap := gapBefore_endedOn hpending h
  simp only [plain, commentFollows_eq_false hnext, commentFollows_eq_false hnext',
    isArrayLiteral_endedOn, Emission.bytes]
  refine ⟨?_, ?_⟩
  · rw [htext]
    exact congrArg (fun gap => List.flatten gap ++ _ ++ _) hgap
  · simp [LayoutState.endedOn, remember, hsame.2]

/-! ## Runs -/

/-- The line breaks of two inputs agree as `LinesAgree` says, where `es` is written for the
first. -/
def BreaksAgree (es : List Emission) (ts ts' : List Token) : Prop :=
  ∀ (i : Nat) (t u t' u' : Token), ts[i]? = some t → ts[i + 1]? = some u →
    ts'[i]? = some t' → ts'[i + 1]? = some u' → u.kind ≠ .eof →
    (t'.BreaksBefore u' ↔ t.BreaksBefore u) ∨ (t'.BreaksBefore u' ↔ 0x0A ∈ between es i)

/-- The same in front of the first tokens. What was before them is only remembered in the state of
the first run, with its end on the line `x` in the second, and `pending` was written behind it. -/
def StartsAgree (s : LayoutState) (x : Int) (pending : Bytes) (es : List Emission)
    (ts ts' : List Token) : Prop :=
  ∀ (l : LastToken) (t t' : Token), s.last = some l → ts[0]? = some t → ts'[0]? = some t' →
    t.kind ≠ .eof → (x < t'.start.line ↔ l.stopLine < t.start.line)
      ∨ (x < t'.start.line ↔ 0x0A ∈ pending ++ (es.getD 0 {}).gap.flatten)

section BreaksAgree

variable {e : Emission} {es : List Emission} {t t' : Token} {ts ts' : List Token}

theorem BreaksAgree.tail (h : BreaksAgree (e :: es) (t :: ts) (t' :: ts')) :
    BreaksAgree es ts ts' :=
  fun i u v u' v' hu hv hu' hv' => h (i + 1) u v u' v' hu hv hu' hv'

theorem BreaksAgree.startsAgree (h : BreaksAgree (e :: es) (t :: ts) (t' :: ts'))
    (hlast : ∀ l, s.last = some l → l.stopLine = t.stop.line) :
    StartsAgree s t'.stop.line e.after.flatten es ts ts' := by
  intro l u u' hl hu hu' huk
  rw [hlast l hl]
  exact h 0 t u t' u' rfl hu rfl hu' huk

end BreaksAgree

theorem isComment_head?_of_same {ts ts' : List Token} (h : List.Forall₂ Token.SameContent ts ts')
    (hfree : ∀ t ∈ ts, t.isComment = false) : ∀ n, ts'.head? = some n → n.isComment = false := by
  intro n hn
  cases h with
  | nil => cases hn
  | @cons u u' us us' hu _ =>
    obtain rfl : u' = n := Option.some.inj hn
    exact (Token.isComment_of_kind hu.1.symm).trans (hfree u List.mem_cons_self)

/-- The run lemma: what the first token of the rest needs to know about the last one is a
hypothesis of its own, because that token is only remembered in the state. -/
theorem emissionsFrom_endedOn (indent : Bytes) (s : LayoutState) (x : Int) (pending : Bytes)
    {ts ts' : List Token} (hsame : List.Forall₂ Token.SameContent ts ts')
    (hfree : ∀ t ∈ ts, t.isComment = false) (heof : ∀ t ∈ ts.dropLast, t.kind ≠ .eof)
    (hpending : s.addedNewline = true ↔ 0x0A ∈ pending)
    (hstart : StartsAgree s x pending (emissionsFrom indent s ts) ts ts')
    (hlines : BreaksAgree (emissionsFrom indent s ts) ts ts') :
    (emissionsFrom indent (s.endedOn x) ts').map Emission.bytes =
        (emissionsFrom indent s ts).map Emission.bytes
      ∧ (stateAfter indent (s.endedOn x) ts').addedNewline =
        (stateAfter indent s ts).addedNewline := by
  induction hsame generalizing s x pending with
  | nil => exact ⟨rfl, rfl⟩
  | @cons t t' ts ts' ht hts ih =>
    have hc : t.isComment = false := hfree t List.mem_cons_self
    have hc' : t'.isComment = false := (Token.isComment_of_kind ht.1.symm).trans hc
    have hfree' : ∀ u ∈ ts, u.isComment = false := fun u hu => hfree u (List.mem_cons_of_mem _ hu)
    have hnext : ∀ n, ts.head? = some n → n.isComment = false :=
      fun n hn => hfree' n (List.mem_of_head? hn)
    have hnext' := isComment_head?_of_same hts hfree'
    by_cases hk : t.kind = .eof
    · -- the end is last, so this step ends both runs
      have hnil : ts = [] := by
        cases ts with
        | nil => rfl
        | cons u us => exact absurd hk (heof t (by simp))
      subst hnil
      cases hts
      have hk' : t'.kind = .eof := ht.1 ▸ hk
      simp [emissionsFrom, stateAfter, step_eof hk, step_eof hk', LayoutState.endedOn]
    · have hk' : t'.kind ≠ .eof := ht.1 ▸ hk
      have hstep : step indent s t ts.head? = plain indent s t (effectiveKind s t) ts.head? :=
        step_plain hc hk
      have hstep' : step indent (s.endedOn x) t' ts'.head? =
          plain indent (s.endedOn x) t' (effectiveKind s t) ts'.head? := by
        rw [step_plain hc' hk', effectiveKind_endedOn s x ht]
      rw [emissionsFrom, hstep] at hstart hlines
      -- One step: the same bytes, and states that differ in the remembered line only.
      have hone := plain_endedOn ht hpending hnext hnext' fun l hl => hstart l t t' hl rfl rfl hk
      -- The rest of both runs, from the lines on which the two tokens ended.
      have hended : ∀ l, (plain indent s t (effectiveKind s t) ts.head?).2.last = some l →
          l.stopLine = t.stop.line := by
        intro l hl
        simp only [plain, remember, Option.some.injEq] at hl
        exact hl ▸ rfl
      have heof' : ∀ u ∈ ts.dropLast, u.kind ≠ .eof := by
        intro u hu
        cases ts with
        | nil => cases hu
        | cons v vs => exact heof u (List.mem_cons_of_mem _ hu)
      have hrest := ih _ t'.stop.line _ hfree' heof' (addedNewline_plain hnext)
        (hlines.startsAgree hended) hlines.tail
      simp only [emissionsFrom, stateAfter, hstep, hstep', List.map_cons, hone.1, hone.2]
      exact ⟨by rw [hrest.1], hrest.2⟩

theorem getLast?_any_eof {ts ts' : List Token} (h : List.Forall₂ Token.SameContent ts ts') :
    ts'.getLast?.any (·.kind == .eof) = ts.getLast?.any (·.kind == .eof) := by
  induction h with
  | nil => rfl
  | @cons t t' ts ts' ht hts ih =>
    cases hts with
    | nil => simp [ht.1]
    | cons hu hus => simpa [List.getLast?_cons_cons] using ih

end Layout

/-- **Only line breaks matter, and the output's own line breaks do as well as the input's.** Two
comment-free token lists with the same kinds and values are written the same way if each line
break of the second is one of the first or one that the layout of the first wrote, and each
missing one is missing there. Columns and offsets never matter. -/
theorem formatTokens_code_eq_of_linesAgree (o : Options) {ts ts' : List Token}
    (hfree : ∀ t ∈ ts, t.isComment = false) (heof : ∀ t ∈ ts.dropLast, t.kind ≠ .eof)
    (hsame : List.Forall₂ Token.SameContent ts ts')
    (hlines : Layout.LinesAgree o.indent ts ts') :
    (formatTokens o ts').code = (formatTokens o ts).code := by
  have htail : ∀ i t u t' u', ts[i]? = some t → ts[i + 1]? = some u → ts'[i]? = some t' →
      ts'[i + 1]? = some u' → u.kind ≠ .eof → (t'.BreaksBefore u' ↔ t.BreaksBefore u)
        ∨ (t'.BreaksBefore u' ↔
          0x0A ∈ Layout.between (Layout.emissionsFrom o.indent {} ts) i) := by
    intro i t u t' u' ht hu ht' hu' hk
    have hlen : i + 1 < (Layout.emissionsFrom o.indent {} ts).length := by
      rw [Layout.length_emissionsFrom]
      exact (List.getElem?_eq_some_iff.mp hu).1
    have hbetween : Layout.between (Layout.emissions o.indent ts) i =
        Layout.between (Layout.emissionsFrom o.indent {} ts) i := by
      unfold Layout.between Layout.emissions
      split
      · rfl
      · simp only [List.getD_eq_getElem?_getD]
        rw [List.getElem?_append_left hlen, List.getElem?_append_left (by omega)]
    rw [← hbetween]
    exact hlines i t u t' u' ht hu ht' hu' hk
  have hrun := Layout.emissionsFrom_endedOn o.indent {} 0 [] hsame hfree heof (by simp)
    (fun _ _ _ hl => nomatch hl) htail
  -- Nothing is remembered at the start, so both runs start alike.
  have hstart : ({} : LayoutState).endedOn 0 = {} := rfl
  rw [hstart] at hrun
  have hall : (Layout.emissions o.indent ts').map Emission.bytes =
      (Layout.emissions o.indent ts).map Emission.bytes := by
    unfold Layout.emissions
    rw [Layout.getLast?_any_eof hsame]
    split
    · exact hrun.1
    · simp only [List.map_append, hrun.1, Layout.step_eof (t := Layout.endToken) rfl, hrun.2]
  unfold formatTokens
  simp only [List.flatMap_def, hall]

/-- A brace and a name on one line are written like the same two on two lines, because the
layout starts a new line between them. -/
theorem formatTokens_code_eq_of_linesAgree_brace :
    (formatTokens { indent := utf8 "  " }
        [⟨.punct .braceL, [], ⟨1, 0, 0⟩, ⟨1, 1, 1⟩⟩,
          ⟨.name, utf8 "a", ⟨2, 0, 2⟩, ⟨2, 1, 3⟩⟩]).code =
      (formatTokens { indent := utf8 "  " }
        [⟨.punct .braceL, [], ⟨1, 0, 0⟩, ⟨1, 1, 1⟩⟩,
          ⟨.name, utf8 "a", ⟨1, 1, 1⟩, ⟨1, 2, 2⟩⟩]).code := by
  refine formatTokens_code_eq_of_linesAgree _ (by decide) (by decide)
    (.cons ⟨rfl, rfl⟩ (.cons ⟨rfl, rfl⟩ .nil)) ?_
  intro i t u t' u' ht hu ht' hu' _
  match i with
  | 0 =>
    right
    obtain rfl : _ = t' := by simpa using ht'
    obtain rfl : _ = u' := by simpa using hu'
    exact iff_of_true (by unfold Token.BreaksBefore; decide) (by decide)
  | i + 1 => simp at hu

end ScriptTidy
