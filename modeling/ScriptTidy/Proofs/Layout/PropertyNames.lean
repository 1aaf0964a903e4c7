import ScriptTidy.Proofs.Layout.Neighbours

/-!
# Reserved words as names of properties

Behind a dot a reserved word is a name: it opens and closes nothing, and the white space around it
is that around any name. Two runs are compared, one over the reserved word and one over a name
with the same value and place.

* `step_asName` : behind a dot the two runs write the same and leave the same state.
* `needsSpace_asName` : behind anything else an opening bracket on the same line shows which of the
  two it was.
* `formatTokens_propertyName` : what this means for a whole list of tokens.
-/

namespace ScriptTidy

/-- A name with the value and the place of the token. -/
def Token.asName (t : Token) : Token := { t with kind := .name }

namespace Layout

variable {indent : Bytes} {s : LayoutState}

/-! ## Words -/

/-- A name or a reserved word. -/
def isWord (kind : Kind) : Bool := kind = .name || kind.isKeyword

theorem isWord_of_isKeyword {kind : Kind} (h : kind.isKeyword = true) : isWord kind = true := by
  rw [isWord, h, Bool.or_true]

theorem ordinary_of_isWord {kind : Kind} (h : isWord kind = true) :
    kind.isComment = false ∧ kind ≠ .eof := by
  cases kind <;> first | exact ⟨rfl, Kind.noConfusion⟩ | cases h

/-- Of the token after it, a step sees the line and whether it is a comment. -/
theorem step_next_congr {t n n' : Token} (hcomment : n.isComment = n'.isComment)
    (hline : n.start.line = n'.start.line) :
    step indent s t (some n) = step indent s t (some n') := by
  have hfollows : commentFollows t (some n) = commentFollows t (some n') := by
    rw [commentFollows, commentFollows, Option.any_some, Option.any_some, hcomment, hline]
  unfold step comment plain
  rw [hfollows, Option.any_some, Option.any_some, hline]

/-- **Behind a dot a reserved word is a name.** -/
theorem step_asName {t : Token} (ht : t.kind.isKeyword = true)
    (hlast : s.standing.last = some (.punct .dot)) (next : Option Token) :
    step indent s t.asName next = step indent s t next := by
  obtain ⟨hcomment, heof⟩ := ordinary_of_isWord (isWord_of_isKeyword ht)
  have hkind : effectiveKind s t = .name := by
    rw [effectiveKind_eq_kindTaken, kindTaken, ht, hlast]
    rfl
  have hkind' : effectiveKind s t.asName = .name := rfl
  rw [step_plain hcomment heof, hkind, step_plain (t := t.asName) rfl Kind.noConfusion, hkind']
  rfl

theorem finished_asName {t : Token} (ht : t.kind.isKeyword = true)
    (hlast : s.standing.last = some (.punct .dot)) (rest : List Token) :
    finished indent s (t.asName :: rest) = finished indent s (t :: rest) := by
  obtain ⟨-, heof⟩ := ordinary_of_isWord (isWord_of_isKeyword ht)
  have heof' : t.asName.kind ≠ .eof := Kind.noConfusion
  rw [finished_cons fun h => absurd h heof', finished_cons fun h => absurd h heof,
    step_asName ht hlast]

/-! ## What shows that a word is reserved -/

/-- An opening bracket directly behind a token. -/
def bracketBehind (t : Token) (p : Punctuator) : Token := ⟨.punct p, [], t.stop, t.stop⟩

/-- **An opening bracket tells each reserved word from a name**, a parenthesis or a brace. -/
theorem needsSpace_asName (w : Keyword) (value : Bytes) (line : Int) :
    ∃ p, (p = .parenL ∨ p = .braceL) ∧
      Rules.needsSpace (.punct p) (some ⟨.keyword w, value, line⟩) =
        !Rules.needsSpace (.punct p) (some ⟨.name, value, line⟩) := by
  -- a name is kept apart from a brace only, and a word that has no space behind it of its own
  -- is not, as `this {`
  cases w <;> first | exact ⟨.braceL, .inr rfl, rfl⟩ | exact ⟨.parenL, .inl rfl, rfl⟩

/-- On the line of a word, an opening bracket has a space in front if the two ask for it. -/
theorem gapBefore_bracket {kind : Kind} {value : Bytes} {line level : Int} {frames : List Frame}
    {p : Punctuator} (hkind : isWord kind = true) (hp : p = .parenL ∨ p = .braceL)
    (hlast : s.last = some ⟨kind, value, line⟩) (hnewline : s.addedNewline = false)
    (hspace : s.addedSpace = false) :
    gapBefore indent s (.punct p) line frames level =
      if Rules.needsSpace (.punct p) s.last then [[0x20]] else [] := by
  have hbrace : s.last.map (·.kind) ≠ some (.punct .braceR) := by
    rw [hlast]
    intro h
    obtain rfl : kind = .punct .braceR := Option.some_inj.mp h
    cases hkind
  have hgap : gapOfKinds s (.punct p) frames = ⟨[], false, false⟩ := by
    unfold gapOfKinds
    dsimp only
    rw [if_neg hbrace, hnewline, hspace]
    rcases hp with rfl | rfl <;> rfl
  have hbreaks : breaksLine s (.punct p) line frames = false := by
    unfold breaksLine
    rw [hlast, Rules.endsStatement_some, decide_eq_false (Int.lt_irrefl _)]
    rcases hp with rfl | rfl <;> rfl
  rw [gapBefore_eq, hbreaks, hgap]
  rfl

theorem bytesBehind_nil (h : s.addedNewline = false) : bytesBehind indent s [] = [0x0A] := by
  unfold bytesBehind finished stateAfter
  rw [step_eof rfl, h]
  rfl

/-- Nothing is written behind a word. -/
theorem plain_word {t : Token} {kind : Kind} {next : Option Token} (hkind : isWord kind = true)
    (hnext : commentFollows t next = false) : (plain indent s t kind next).1.after = []
      ∧ (plain indent s t kind next).2.addedNewline = false := by
  have harray : Rules.isArrayLiteral kind s.last = false := by
    unfold Rules.isArrayLiteral
    cases kind <;> first | rfl | cases hkind
  have hends : ∀ frames, Rules.endsLine kind false frames = false := by
    intro frames
    cases kind <;> first | rfl | cases hkind
  unfold plain
  rw [harray, hnext]
  dsimp only
  rw [hends]
  exact ⟨rfl, rfl⟩

/-- A word at the end, and a word with an opening bracket behind it. -/
theorem bytesBehind_word {t : Token} {kind : Kind} (hkind : isWord kind = true)
    (hstep : ∀ next, step indent s t next = plain indent s t kind next)
    (htext : Token.text { t with kind := kind } = t.value) (heof : t.kind ≠ .eof) :
    ∃ gap, bytesBehind indent s [t] = gap ++ (t.value ++ [0x0A])
      ∧ ∀ p, p = .parenL ∨ p = .braceL →
        ∃ more, bytesBehind indent s [t, bracketBehind t p] = gap ++ (t.value ++
          ((if Rules.needsSpace (.punct p) (remember t kind) then [0x20] else []) ++
            (utf8 p.label ++ more))) := by
  -- a word is written alike whatever follows it, unless that is a comment on its line
  have hbytes : ∀ next, commentFollows t next = false →
      (plain indent s t kind next).1.bytes =
        (plain indent s t kind none).1.gap.flatten ++ t.value := by
    intro next hnext
    unfold Emission.bytes
    rw [(plain_word hkind hnext).1, List.flatten_nil, List.append_nil, ← htext]
    rfl
  refine ⟨(plain indent s t kind none).1.gap.flatten, ?_, fun p hp => ?_⟩
  · rw [bytesBehind_cons fun h => absurd h heof, List.head?_nil, hstep, hbytes _ rfl,
      bytesBehind_nil (plain_word hkind rfl).2, List.append_assoc]
  · have hcomment : (bracketBehind t p).isComment = false := rfl
    have hbracket : (bracketBehind t p).kind ≠ .eof := Kind.noConfusion
    have hnext : commentFollows t (some (bracketBehind t p)) = false := rfl
    rw [bytesBehind_cons fun h => absurd h heof, List.head?_cons, hstep, hbytes _ hnext,
      bytesBehind_cons fun h => absurd h hbracket, step_plain hcomment hbracket]
    generalize hs' : (plain indent s t kind (some (bracketBehind t p))).2 = s'
    have hlast : s'.last = remember t kind := by rw [← hs']; rfl
    have hnewline : s'.addedNewline = false := by rw [← hs']; exact (plain_word hkind hnext).2
    have hspace : s'.addedSpace = false := by rw [← hs']; rfl
    have heffective : effectiveKind s' (bracketBehind t p) = .punct p := rfl
    rw [heffective]
    have hgap : (plain indent s' (bracketBehind t p) (.punct p) none).1.gap =
        if Rules.needsSpace (.punct p) (remember t kind) then [[0x20]] else [] := by
      rw [← hlast]
      exact gapBefore_bracket hkind hp hlast hnewline hspace
    refine ⟨(plain indent s' (bracketBehind t p) (.punct p) none).1.after.flatten ++
      bytesBehind indent (plain indent s' (bracketBehind t p) (.punct p) none).2 [], ?_⟩
    rw [List.head?_nil, Emission.bytes, hgap, apply_ite List.flatten, List.flatten_singleton,
      List.flatten_nil]
    simp only [List.append_assoc]
    rfl

/-- **A reserved word that is taken for one is not written like a name.** -/
theorem exists_bytesBehind_ne {t : Token} (ht : t.kind.isKeyword = true) (hvalue : t.value ≠ [])
    (hlast : s.standing.last ≠ some (.punct .dot)) :
    ∃ rest, bytesBehind indent s (t.asName :: rest) ≠ bytesBehind indent s (t :: rest) := by
  obtain ⟨w, hw⟩ : ∃ w, t.kind = .keyword w := by
    cases hkind : t.kind <;> first | exact ⟨_, rfl⟩ | (rw [hkind] at ht; cases ht)
  obtain ⟨hcomment, heof⟩ := ordinary_of_isWord (isWord_of_isKeyword ht)
  have hkind : effectiveKind s t = t.kind := by
    rw [effectiveKind_eq_kindTaken, kindTaken]
    refine if_neg fun h => hlast ?_
    rw [Bool.and_eq_true, Option.any_eq_true] at h
    obtain ⟨k, hk, hdot⟩ := h.2
    rw [hk, eq_of_beq hdot]
  have htext : Token.text t = t.value := by
    obtain ⟨kind, value, start, stop⟩ := t
    obtain rfl : kind = .keyword w := hw
    exact if_neg (mt List.isEmpty_iff.mp hvalue)
  have hstep : ∀ next, step indent s t next = plain indent s t t.kind next := by
    intro next
    rw [step_plain hcomment heof, hkind]
  have hstep' : ∀ next, step indent s t.asName next = plain indent s t.asName .name next :=
    fun next => step_plain rfl Kind.noConfusion
  obtain ⟨gap, hend, hbracket⟩ := bytesBehind_word (isWord_of_isKeyword ht) hstep htext heof
  obtain ⟨gap', hend', hbracket'⟩ := bytesBehind_word rfl hstep' rfl Kind.noConfusion
  by_cases hgap : gap' = gap
  · obtain ⟨p, hp, hneeds⟩ := needsSpace_asName w t.value t.stop.line
    obtain ⟨more, hmore⟩ := hbracket p hp
    obtain ⟨more', hmore'⟩ := hbracket' p hp
    refine ⟨[bracketBehind t p], fun h => ?_⟩
    replace h := hmore'.symm.trans (h.trans hmore)
    rw [hgap] at h
    replace h := List.append_cancel_left (List.append_cancel_left h)
    have hremember : remember t t.kind = some ⟨.keyword w, t.value, t.stop.line⟩ := by
      rw [← hw]
      rfl
    have hremember' : remember t.asName .name = some ⟨.name, t.value, t.stop.line⟩ := rfl
    rw [hremember, hremember', hneeds] at h
    -- one of the two has a space where the other has the bracket
    generalize Rules.needsSpace (.punct p) (some ⟨.name, t.value, t.stop.line⟩) = needs at h
    rcases hp with rfl | rfl <;> cases needs <;> cases h
  · refine ⟨[], fun h => hgap ?_⟩
    replace h := hend'.symm.trans (h.trans hend)
    exact List.append_cancel_right h

end Layout

/-- **A reserved word behind a dot is formatted as a name**, whatever comes before and after it,
and behind nothing else it is. -/
theorem formatTokens_propertyName (o : Options) (before : List Token) (sep : Token) {t : Token}
    (ht : t.kind.isKeyword = true) :
    (sep.kind = .punct .dot → ∀ rest,
      formatTokens o (before ++ sep :: t.asName :: rest) =
        formatTokens o (before ++ sep :: t :: rest))
    ∧ (sep.kind ≠ .punct .dot → t.value ≠ [] → ∃ rest,
      (formatTokens o (before ++ sep :: t.asName :: rest)).code ≠
        (formatTokens o (before ++ sep :: t :: rest)).code) := by
  obtain ⟨hcomment, -⟩ := Layout.ordinary_of_isWord (Layout.isWord_of_isKeyword ht)
  -- the two runs agree up to the word
  obtain ⟨es, s, -, -, hrun⟩ := Layout.finished_append o.indent {} before sep
  have hnext : Layout.step o.indent s sep (some t.asName) = Layout.step o.indent s sep (some t) :=
    Layout.step_next_congr hcomment.symm rfl
  have hemissions : ∀ v, Layout.step o.indent s sep (some v) = Layout.step o.indent s sep (some t) →
      ∀ rest, Layout.emissions o.indent (before ++ sep :: v :: rest) =
        es ++ (Layout.step o.indent s sep (some t)).1 ::
          Layout.finished o.indent (Layout.step o.indent s sep (some t)).2 (v :: rest) := by
    intro v hv rest
    rw [Layout.emissions_eq_finished, hrun, Layout.finished_cons fun _ => List.cons_ne_nil _ _,
      List.head?_cons, hv]
  refine ⟨fun hsep rest => ?_, fun hsep hvalue => ?_⟩
  · have hlast := (Layout.last_step_eq_dot o.indent s sep (some t)).mpr hsep
    have hequal : Layout.emissions o.indent (before ++ sep :: t.asName :: rest) =
        Layout.emissions o.indent (before ++ sep :: t :: rest) := by
      rw [hemissions _ hnext, hemissions _ rfl, Layout.finished_asName ht hlast]
    unfold formatTokens
    rw [hequal]
    simp only [List.length_append, List.length_cons]
  · obtain ⟨rest, hne⟩ := Layout.exists_bytesBehind_ne ht hvalue
      (mt (Layout.last_step_eq_dot o.indent s sep (some t)).mp hsep)
    refine ⟨rest, fun h => hne ?_⟩
    unfold formatTokens at h
    dsimp only at h
    rw [hemissions _ hnext, hemissions _ rfl, List.flatMap_append, List.flatMap_append,
      List.flatMap_cons, List.flatMap_cons] at h
    exact List.append_cancel_left (List.append_cancel_left (List.append_cancel_left h))

/-- The `switch` of `a?.switch;b`. -/
def chainedSwitch : Token := ⟨.keyword .switchKw, utf8 "switch", ⟨1, 3, 3⟩, ⟨1, 9, 9⟩⟩

/-- The tokens before it. -/
def chainStart : List Token :=
  [⟨.name, utf8 "a", ⟨1, 0, 0⟩, ⟨1, 1, 1⟩⟩, ⟨.punct .questionDot, [], ⟨1, 1, 1⟩, ⟨1, 3, 3⟩⟩]

/-- The tokens behind it. -/
def chainEnd : List Token :=
  [⟨.punct .semi, [], ⟨1, 9, 9⟩, ⟨1, 10, 10⟩⟩, ⟨.name, utf8 "b", ⟨1, 10, 10⟩, ⟨1, 11, 11⟩⟩,
    ⟨.eof, [], ⟨1, 11, 11⟩, ⟨1, 11, 11⟩⟩]

/-- Behind a dot the word may be taken for a name, behind a number it may not. -/
theorem formatTokens_propertyName_switch : chainedSwitch.kind.isKeyword = true
    ∧ (∀ rest, formatTokens ⟨utf8 "  ", [], false, 0, 0, 0⟩
        ([] ++ ⟨.punct .dot, [], ⟨1, 2, 2⟩, ⟨1, 3, 3⟩⟩ :: chainedSwitch.asName :: rest) =
      formatTokens ⟨utf8 "  ", [], false, 0, 0, 0⟩
        ([] ++ ⟨.punct .dot, [], ⟨1, 2, 2⟩, ⟨1, 3, 3⟩⟩ :: chainedSwitch :: rest))
    ∧ ∃ rest, (formatTokens ⟨utf8 "  ", [], false, 0, 0, 0⟩
        ([] ++ ⟨.num, utf8 "1", ⟨1, 2, 2⟩, ⟨1, 3, 3⟩⟩ :: chainedSwitch.asName :: rest)).code ≠
      (formatTokens ⟨utf8 "  ", [], false, 0, 0, 0⟩
        ([] ++ ⟨.num, utf8 "1", ⟨1, 2, 2⟩, ⟨1, 3, 3⟩⟩ :: chainedSwitch :: rest)).code :=
  ⟨rfl, (formatTokens_propertyName _ [] _ rfl).1 rfl,
    (formatTokens_propertyName _ [] _ rfl).2 Kind.noConfusion (by decide)⟩

/-- Behind the dot of an optional chain it is not either: the `switch` of `a?.switch;b` opens a
frame, and what follows is indented for good. -/
theorem formatTokens_propertyName_ne_optional :
    tokenize (utf8 "a?.switch;b") = .ok (chainStart ++ chainedSwitch :: chainEnd)
    ∧ (formatTokens ⟨utf8 "  ", [], false, 0, 0, 0⟩
        (chainStart ++ chainedSwitch.asName :: chainEnd)).code = utf8 "a?.switch;\nb\n"
    ∧ (formatTokens ⟨utf8 "  ", [], false, 0, 0, 0⟩
        (chainStart ++ chainedSwitch :: chainEnd)).code = utf8 "a?.switch ;\n  b\n" := by
  decide +kernel

end ScriptTidy
