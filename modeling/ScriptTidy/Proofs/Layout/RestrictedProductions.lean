import ScriptTidy.Proofs.Layout.Neighbours

/-!
# Line breaks that the grammar sees

Behind `return` and `yield`, and before `++` and `--`, a line break ends the statement, so there it
is a part of the program like any token: `return` would return something else, or nothing, and an
operator would take the other operand. This file proves that the layout neither adds nor drops such
a line break. Frames, level and flags have rules of their own about new lines, and none of them has
a say between these tokens.

* `Restricted` : the pairs of neighbours between which a line break counts.
* `Restricted.mem_gapBefore` : one step, from any state behind the first of the two.
* `formatTokens_restricted` : wherever the two stand in a list of tokens.
-/

namespace ScriptTidy

namespace Kind

/-- The tokens that can be the end of an operand. -/
def endsOperand : Kind → Bool
  | name | num | string | regexp | privateName | punct .parenR | punct .bracketR
  | punct .backQuote | keyword .thisKw | keyword .superKw | keyword .nullKw | keyword .trueKw
  | keyword .falseKw => true
  | _ => false

end Kind

namespace Layout

variable {indent : Bytes} {s : LayoutState} {k kind : Kind} {value : Bytes}

/-- A line break counts between a token that is taken for one of kind `k` and the next token, which
is of kind `kind`. -/
inductive Restricted (k : Kind) (value : Bytes) (kind : Kind) : Prop
  /-- What stands behind `return` or `yield` may be its argument. -/
  | argument (hk : k = .keyword .returnKw ∨ k = .name ∧ value = utf8 "yield")
      (hbrace : kind ≠ .punct .braceR) (hbracket : kind ≠ .punct .bracketR)
  /-- The operator may belong to the operand before it. -/
  | operator (hk : k.endsOperand = true)
      (hkind : kind = .punct .plusPlus ∨ kind = .punct .minusMinus)

/-! ## One step -/

/-- What is taken for a token that is code is one. -/
theorem RememberedAs.ordinary (h : RememberedAs kind k) (hcomment : k.isComment = false)
    (heof : k ≠ .eof) : kind.isComment = false ∧ kind ≠ .eof := by
  rcases h with rfl | ⟨hkeyword, -⟩
  · exact ⟨hcomment, heof⟩
  · cases kind <;> first | exact ⟨rfl, Kind.noConfusion⟩ | cases hkeyword

/-- The first of the two is neither a brace nor a dot, and no new line starts behind it. -/
theorem Restricted.ordinary (h : Restricted k value kind) :
    k ≠ .punct .braceR ∧ k ≠ .punct .dot ∧ mayEndLine k = false ∧ k.isComment = false
      ∧ k ≠ .eof := by
  have hoperand : k.endsOperand = true ∨ k = .keyword .returnKw := by
    cases h with
    | argument hk _ _ =>
      rcases hk with rfl | ⟨rfl, -⟩
      · exact Or.inr rfl
      · exact Or.inl rfl
    | operator hk _ => exact Or.inl hk
  rcases hoperand with hk | rfl
  · unfold Kind.endsOperand at hk
    split at hk
    all_goals first | decide | cases hk
  · decide

/-- The second of the two does not end what it stands in. -/
theorem Restricted.dedents (h : Restricted k value kind) (frames : List Frame) :
    Frame.dedents kind frames = false := by
  cases h with
  | argument _ hbrace hbracket =>
    unfold Frame.dedents
    split
    · exact absurd rfl hbrace
    · exact absurd rfl hbracket
    · rfl
  | operator _ hkind => rcases hkind with rfl | rfl <;> rfl

/-- A line break between the two ends the statement. -/
theorem Restricted.endsAtBreak (h : Restricted k value kind) (line : Int) :
    Rules.endsAtBreak kind ⟨k, value, line⟩ = true := by
  unfold Rules.endsAtBreak
  rw [Bool.or_eq_true, decide_eq_true_eq]
  cases h with
  | argument hk _ _ => exact Or.inl hk
  | operator hk hkind =>
    refine Or.inr ?_
    have hend : Rules.cannotEndStatement k = false := by
      unfold Kind.endsOperand at hk
      split at hk
      all_goals first | rfl | cases hk
    have hstart : Rules.cannotStartStatement kind = false := by
      rcases hkind with rfl | rfl <;> rfl
    rw [hend, hstart]
    rfl

/-- **Where a line break counts, a step writes one exactly if there is one**, whatever is open and
at whatever level the token is written. -/
theorem Restricted.mem_gapBefore (h : Restricted k value kind) {line startLine level : Int}
    {frames : List Frame} (hlast : s.last = some ⟨k, value, line⟩)
    (hnewline : s.addedNewline = false) :
    0x0A ∈ (gapBefore indent s kind startLine frames level).flatten ↔ line < startLine :=
  mem_gapBefore_endsAtBreak hlast h.ordinary.1 hnewline (h.dedents frames) (h.endsAtBreak line)

end Layout

/-! ## A whole list -/

/-- **Line breaks that the grammar sees are written exactly if they are in the source.** Before and
behind the two tokens anything may stand. Between their texts the output has a line feed exactly if
the second starts on a later line than the first ends. -/
theorem formatTokens_restricted (o : Options) (before after : List Token) {l t : Token}
    (h : Layout.Restricted (Layout.kindTaken (before.getLast?.map (·.kind)) l) l.value t.kind)
    (ht : t.isComment = false) (heof : t.kind ≠ .eof) :
    ∃ head tail,
      (formatTokens o (before ++ l :: t :: after)).code =
        head ++ Token.text { l with kind := Layout.kindTaken (before.getLast?.map (·.kind)) l } ++
          Layout.between (Layout.emissions o.indent (before ++ l :: t :: after)) before.length ++
          t.text ++ tail
      ∧ (0x0A ∈ Layout.between (Layout.emissions o.indent (before ++ l :: t :: after))
          before.length ↔ l.BreaksBefore t) := by
  obtain ⟨s, head, hkind, hbetween, hcode⟩ :=
    Layout.formatTokens_neighbours o before after l heof
  obtain ⟨-, hdot, hends, hcomment, hne⟩ := h.ordinary
  generalize hk : Layout.kindTaken (before.getLast?.map (·.kind)) l = k at *
  replace hkind : Layout.effectiveKind s l = k := by
    rw [Layout.effectiveKind_eq_kindTaken, hkind, hk]
  obtain ⟨hlcomment, hleof⟩ := (hkind ▸ Layout.rememberedAs_effectiveKind s l).ordinary hcomment hne
  have hstep : Layout.step o.indent s l (some t) = Layout.plain o.indent s l k (some t) := by
    rw [Layout.step_plain hlcomment hleof, hkind]
  -- behind the first token nothing is written, and all that is remembered is the token
  have hbehind : Layout.Behind o.indent (some l) (some t) (Layout.step o.indent s l (some t)).2
      (Layout.step o.indent s l (some t)).1.after.flatten := .step hleof
  obtain ⟨k', broke, hafter, hpending⟩ := hbehind.plain hlcomment
  have hlast : (Layout.step o.indent s l (some t)).2.last = some ⟨k, l.value, l.stop.line⟩ := by
    rw [hstep]
    rfl
  obtain rfl : k' = k := by
    have heq := hafter.last.symm.trans hlast
    injection heq with heq
    injection heq
  obtain rfl : broke = false := by
    rw [← Bool.not_eq_true]
    intro hbroke
    exact Bool.false_ne_true (hends.symm.trans (hafter.mayEnd hbroke))
  -- the second is taken for what it is, because the first is no dot
  have hstep' : Layout.step o.indent (Layout.step o.indent s l (some t)).2 t after.head? =
      Layout.plain o.indent (Layout.step o.indent s l (some t)).2 t t.kind after.head? := by
    rw [Layout.step_plain ht heof, Layout.effectiveKind_of_last hlast hdot]
  have htext : (Layout.step o.indent s l (some t)).1.text = Token.text { l with kind := k' } := by
    rw [hstep]
    rfl
  have htext' : (Layout.step o.indent (Layout.step o.indent s l (some t)).2 t after.head?).1.text =
      t.text := by
    rw [hstep']
    rfl
  rw [htext, htext'] at hcode
  refine ⟨head, _, hcode, ?_⟩
  rw [hbetween, hpending, hstep']
  exact h.mem_gapBefore hlast (hafter.addedNewline ht)

/-- The `return` of `o.return`, with `++a` on the next line. -/
def returnProperty : Token := ⟨.keyword .returnKw, utf8 "return", ⟨1, 2, 2⟩, ⟨1, 8, 8⟩⟩

/-- The `++` on the next line. -/
def incrementBelow : Token := ⟨.punct .plusPlus, [], ⟨2, 0, 9⟩, ⟨2, 2, 11⟩⟩

/-- The tokens before the two. -/
def objectStart : List Token :=
  [⟨.name, utf8 "o", ⟨1, 0, 0⟩, ⟨1, 1, 1⟩⟩, ⟨.punct .dot, [], ⟨1, 1, 1⟩, ⟨1, 2, 2⟩⟩]

/-- Behind a property the operator stays on its own line, so that it belongs to what follows. -/
theorem formatTokens_restricted_increment :
    Layout.Restricted (Layout.kindTaken (objectStart.getLast?.map (·.kind)) returnProperty)
      returnProperty.value incrementBelow.kind
    ∧ ∃ head tail,
      (formatTokens { indent := utf8 "  " }
          (objectStart ++ returnProperty :: incrementBelow ::
            [⟨.name, utf8 "a", ⟨2, 2, 11⟩, ⟨2, 3, 12⟩⟩])).code =
        head ++ utf8 "return" ++
          Layout.between (Layout.emissions (utf8 "  ")
            (objectStart ++ returnProperty :: incrementBelow ::
              [⟨.name, utf8 "a", ⟨2, 2, 11⟩, ⟨2, 3, 12⟩⟩])) 2 ++ utf8 "++" ++ tail
      ∧ 0x0A ∈ Layout.between (Layout.emissions (utf8 "  ")
        (objectStart ++ returnProperty :: incrementBelow ::
          [⟨.name, utf8 "a", ⟨2, 2, 11⟩, ⟨2, 3, 12⟩⟩])) 2 := by
  have hrestricted : Layout.Restricted
      (Layout.kindTaken (objectStart.getLast?.map (·.kind)) returnProperty)
      returnProperty.value incrementBelow.kind := .operator rfl (.inl rfl)
  obtain ⟨head, tail, hcode, hbreak⟩ := formatTokens_restricted { indent := utf8 "  " } objectStart
    [⟨.name, utf8 "a", ⟨2, 2, 11⟩, ⟨2, 3, 12⟩⟩] hrestricted rfl Kind.noConfusion
  refine ⟨hrestricted, head, tail, hcode, hbreak.mpr ?_⟩
  show (1 : Int) < 2
  decide

end ScriptTidy
