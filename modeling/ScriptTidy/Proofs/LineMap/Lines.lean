import ScriptTidy.LineMap

/-!
# The lines of a text

A line table finds the starts of the lines forwards, from every line end that it meets, and the
end of a line backwards, from the bytes in front of the next start. The two readings have to agree
on which bytes end a line, also where line ends stand side by side, where lines are empty and where
bytes are missing from a character.

* `Broken` : a text cut into lines, with the offsets behind the line ends.
* `broken_startsFrom` : the starts that a line table lists are those of such lines.
* `Cut`, `LineCut` : one line with what stands before and behind it.
* `lines_partition` : the lines of a text and what ends them make up the text.
-/

namespace ScriptTidy.LineMap

/-- What ends a line. -/
def lineEnds : List Bytes :=
  [[0x0A], [0x0D, 0x0A], [0x0D], [0xE2, 0x80, 0xA8], [0xE2, 0x80, 0xA9]]

/-- Nothing in the text ends a line. -/
def Unbroken (text : Bytes) : Prop := ∀ e ∈ lineEnds, ¬ e <:+: text

/-- A text that starts at `offset`, cut into lines, and the offsets behind the line ends. A
carriage return ends a line alone only if no line feed follows it. -/
inductive Broken : (offset : Nat) → Bytes → List Nat → Prop
  | last {o text} (h : Unbroken text) : Broken o text []
  | line {o content ending rest starts} (hcontent : Unbroken content)
    (hending : ending ∈ lineEnds) (hwhole : ending = [0x0D] → rest.head? ≠ some 0x0A)
    (hrest : Broken (o + content.length + ending.length) rest starts) :
    Broken o (content ++ (ending ++ rest)) ((o + content.length + ending.length) :: starts)

/-! ## Forwards -/

theorem unbroken_nil : Unbroken [] := by
  intro e he h
  rw [List.infix_nil] at h
  subst h
  exact absurd he (by decide)

theorem Unbroken.cons {b : UInt8} {text : Bytes} (h : Unbroken text)
    (hb : ∀ e ∈ lineEnds, ¬ e <+: b :: text) : Unbroken (b :: text) := by
  intro e he hinfix
  rcases List.infix_cons_iff.mp hinfix with hprefix | hinfix
  · exact hb e he hprefix
  · exact h e he hinfix

theorem Unbroken.not_mem_return {text : Bytes} (h : Unbroken text) : 0x0D ∉ text := by
  intro hmem
  obtain ⟨front, back, rfl⟩ := List.append_of_mem hmem
  exact h [0x0D] (by decide) ⟨front, back, by simp⟩

/-- A line end that comes first ends an empty line. -/
theorem Broken.lineEnd {o : Nat} {rest : Bytes} {starts : List Nat} (ending : Bytes)
    (hending : ending ∈ lineEnds) (hwhole : ending = [0x0D] → rest.head? ≠ some 0x0A)
    (h : Broken (o + ending.length) rest starts) :
    Broken o (ending ++ rest) ((o + ending.length) :: starts) :=
  Broken.line unbroken_nil hending hwhole h

/-- A byte that starts no line end belongs to the first line. -/
theorem Broken.cons {o : Nat} {b : UInt8} {text : Bytes} {starts : List Nat}
    (h : Broken (o + 1) text starts) (hb : ∀ e ∈ lineEnds, ¬ e <+: b :: text) :
    Broken o (b :: text) starts := by
  cases h with
  | last h => exact .last (h.cons hb)
  | @line _ content ending rest starts hcontent hending hwhole hrest =>
    have hfront : b :: content <+: b :: (content ++ (ending ++ rest)) :=
      List.prefix_append (b :: content) (ending ++ rest)
    have hoffset : o + 1 + content.length = o + (b :: content).length := by
      rw [List.length_cons, Nat.add_assoc, Nat.add_comm 1]
    rw [hoffset] at hrest ⊢
    exact .line (hcontent.cons fun e he h => hb e he (h.trans hfront)) hending hwhole hrest

/-- **The starts of lines are found at line ends, and behind each of them.** -/
theorem broken_startsFrom (o : Nat) (text : Bytes) : Broken o text (startsFrom o text) := by
  fun_induction startsFrom o text with
  | case1 o => exact .last unbroken_nil
  | case2 o r ih =>
    exact .lineEnd [0x0A] (by decide) (fun h => absurd h (by decide)) ih
  | case3 o r ih =>
    exact .lineEnd [0x0D, 0x0A] (by decide) (fun h => absurd h (by decide)) ih
  | case4 o r hr ih =>
    refine .lineEnd [0x0D] (by decide) (fun _ hhead => ?_) ih
    obtain ⟨s, rfl⟩ := List.head?_eq_some_iff.mp hhead
    exact hr s rfl
  | case5 o r ih =>
    exact .lineEnd [0xE2, 0x80, 0xA8] (by decide) (fun h => absurd h (by decide)) ih
  | case6 o r ih =>
    exact .lineEnd [0xE2, 0x80, 0xA9] (by decide) (fun h => absurd h (by decide)) ih
  -- at any other byte no line end starts, or one of the cases before would apply
  | case7 o b r hlf _ hcr hline hparagraph ih =>
    refine ih.cons fun e he hprefix => ?_
    obtain ⟨s, hs⟩ := hprefix
    simp only [lineEnds, List.mem_cons, List.not_mem_nil, or_false] at he
    rcases he with rfl | rfl | rfl | rfl | rfl
    · exact hlf (List.cons.inj hs).1.symm
    · exact hcr (List.cons.inj hs).1.symm
    · exact hcr (List.cons.inj hs).1.symm
    · exact hline s (List.cons.inj hs).1.symm (List.cons.inj hs).2.symm
    · exact hparagraph s (List.cons.inj hs).1.symm (List.cons.inj hs).2.symm

theorem length_pos_of_mem_lineEnds {ending : Bytes} (h : ending ∈ lineEnds) :
    0 < ending.length := by
  simp only [lineEnds, List.mem_cons, List.not_mem_nil, or_false] at h
  rcases h with rfl | rfl | rfl | rfl | rfl
  all_goals decide

/-- **The starts of lines increase.** -/
theorem Broken.pairwise {o : Nat} {text : Bytes} {starts : List Nat} (h : Broken o text starts) :
    (o :: starts).Pairwise (· < ·) := by
  induction h with
  | last => exact List.pairwise_singleton _ _
  | @line o content ending rest starts _ hending _ _ ih =>
    have hpos := length_pos_of_mem_lineEnds hending
    refine List.pairwise_cons.mpr ⟨fun x hx => ?_, ih⟩
    rcases List.mem_cons.mp hx with rfl | hx
    · omega
    · have := (List.pairwise_cons.mp ih).1 x hx
      omega

/-! ## One line -/

/-- The line with the number `line` of a text that starts at `offset`: its text is `content`, and
`ending` ends it. Line ends are whole, the one in front of the line as well. -/
structure Cut (offset : Nat) (text : Bytes) (starts : List Nat) (line : Nat)
    (before content ending rest : Bytes) : Prop where
  text_eq : text = before ++ (content ++ (ending ++ rest))
  start : (offset :: starts)[line]? = some (offset + before.length)
  unbroken : Unbroken content
  whole : before.getLast? = some 0x0D → (content ++ (ending ++ rest)).head? ≠ some 0x0A
  next : (ending = [] ∧ rest = [] ∧ starts[line]? = none)
    ∨ (ending ∈ lineEnds ∧ starts[line]? = some (offset + before.length + content.length
      + ending.length))

theorem getLast?_lineEnd {ending : Bytes} (h : ending ∈ lineEnds)
    (hlast : ending.getLast? = some 0x0D) : ending = [0x0D] := by
  simp only [lineEnds, List.mem_cons, List.not_mem_nil, or_false] at h
  rcases h with rfl | rfl | rfl | rfl | rfl
  · exact absurd hlast (by decide)
  · exact absurd hlast (by decide)
  · rfl
  · exact absurd hlast (by decide)
  · exact absurd hlast (by decide)

/-- Behind the first line come the other lines. -/
theorem Cut.behind {o line : Nat} {content ending text before content' ending' rest : Bytes}
    {starts : List Nat} (hending : ending ∈ lineEnds)
    (hwhole : ending = [0x0D] → text.head? ≠ some 0x0A)
    (h : Cut (o + content.length + ending.length) text starts line before content' ending' rest) :
    Cut o (content ++ (ending ++ text)) ((o + content.length + ending.length) :: starts) (line + 1)
      (content ++ (ending ++ before)) content' ending' rest := by
  have hlength : o + (content ++ (ending ++ before)).length
      = o + content.length + ending.length + before.length := by
    simp only [List.length_append]
    omega
  refine ⟨?_, ?_, h.unbroken, fun hlast => ?_, ?_⟩
  · rw [h.text_eq]
    simp only [List.append_assoc]
  · rw [hlength]
    exact h.start
  · cases hbefore : before.getLast? with
    | some b =>
      rw [List.getLast?_append, List.getLast?_append, hbefore] at hlast
      exact h.whole (hbefore.trans hlast)
    -- the line starts here, so the byte before it is the last one of the line end in front
    | none =>
      rw [List.getLast?_eq_none_iff] at hbefore
      subst hbefore
      have hb := List.getLast?_eq_some_getLast
        (List.length_pos_iff.mp (length_pos_of_mem_lineEnds hending))
      rw [List.append_nil, List.getLast?_append, hb] at hlast
      have htext := hwhole (getLast?_lineEnd hending (hb.trans hlast))
      rwa [h.text_eq] at htext
  · rw [hlength]
    exact h.next

/-- Every line can be cut out. -/
theorem Broken.exists_cut {o : Nat} {text : Bytes} {starts : List Nat} (h : Broken o text starts)
    {line : Nat} (hline : line ≤ starts.length) :
    ∃ before content ending rest, Cut o text starts line before content ending rest := by
  induction h generalizing line with
  | @last o text h =>
    obtain rfl : line = 0 := Nat.le_zero.mp hline
    exact ⟨[], text, [], [], by simp, rfl, h, fun h => (by cases h), .inl ⟨rfl, rfl, rfl⟩⟩
  | @line o content ending rest starts hcontent hending hwhole hrest ih =>
    cases line with
    | zero =>
      exact ⟨[], content, ending, rest, rfl, rfl, hcontent, fun h => (by cases h),
        .inr ⟨hending, rfl⟩⟩
    | succ line =>
      obtain ⟨before, content', ending', rest', hcut⟩ := ih (Nat.le_of_succ_le_succ hline)
      exact ⟨_, content', ending', rest', hcut.behind hending hwhole⟩

/-! ## Backwards -/

/-- What ends a line is recognised at the end of the line. -/
theorem terminatorLength_append {content ending : Bytes} (hcontent : Unbroken content)
    (hending : ending ∈ lineEnds) : terminatorLength (content ++ ending) = ending.length := by
  unfold terminatorLength
  rw [List.reverse_append]
  simp only [lineEnds, List.mem_cons, List.not_mem_nil, or_false] at hending
  rcases hending with rfl | rfl | rfl | rfl | rfl
  · -- a line feed alone: the line has no carriage return in front of it
    cases hrev : content.reverse with
    | nil => rfl
    | cons b r =>
      have hb : b ≠ 0x0D := by
        rintro rfl
        refine hcontent.not_mem_return (List.mem_reverse.mp ?_)
        rw [hrev]
        exact List.mem_cons_self
      simp [hb]
  all_goals rfl

/-- Where the line ends whose line end stands in front of `next`, as the last bytes in front of
`next` tell. Nothing if a byte that counts is not there. -/
def endBefore? (text : Bytes) : (next : Nat) → Option Nat
  | 0 => none
  | k + 1 =>
    match text[k]? with
    | none => none
    | some b =>
      if b = 0x0A ∧ 1 ≤ k ∧ text[k - 1]? = some 0x0D then some (k - 1)
      else if b = 0x0A ∨ b = 0x0D then some k
      else if 2 ≤ k then some (k - 2) else none

/-- A line of a whole text. -/
abbrev LineCut (text : Bytes) (line : Nat) (before content ending rest : Bytes) : Prop :=
  Cut 0 text (startsFrom 0 text) line before content ending rest

section LineCut

variable {text before content ending rest : Bytes} {line : Nat}

theorem LineCut.start_le (h : LineCut text line before content ending rest) :
    before.length + content.length ≤ text.length := by
  rw [h.text_eq]
  simp only [List.length_append]
  omega

/-- A line neither starts nor ends between a carriage return and its line feed. -/
theorem LineCut.not_between (h : LineCut text line before content ending rest)
    {j : Nat} (hcr : text[j]? = some 0x0D) (hlf : text[j + 1]? = some 0x0A) :
    before.length ≠ j + 1 ∧ before.length + content.length ≠ j + 1 := by
  have hstart : before.length ≠ j + 1 := by
    intro hj
    refine h.whole ?_ ?_
    · rw [List.getLast?_eq_getElem?, hj, Nat.add_sub_cancel, ← hcr, h.text_eq,
        List.getElem?_append_left (by omega)]
    · rw [h.text_eq, ← hj, List.getElem?_append_right (Nat.le_refl _), Nat.sub_self] at hlf
      rw [List.head?_eq_getElem?, hlf]
  refine ⟨hstart, fun hj => ?_⟩
  by_cases hlt : j < before.length
  · omega
  · rw [h.text_eq, List.getElem?_append_right (by omega),
      List.getElem?_append_left (by omega)] at hcr
    exact h.unbroken.not_mem_return (List.mem_of_getElem? hcr)

/-- **The end of a line is found again from the start of the next.** -/
theorem LineCut.endBefore?_eq (h : LineCut text line before content ending rest)
    (hending : ending ∈ lineEnds) :
    endBefore? text (before.length + content.length + ending.length)
      = some (before.length + content.length) := by
  have hbyte : ∀ {i : Nat}, i < ending.length →
      text[before.length + content.length + i]? = ending[i]? := by
    intro i hi
    rw [h.text_eq, ← List.append_assoc, List.getElem?_append_right (by simp),
      List.getElem?_append_left (by simp; omega)]
    simp
  have hnot := fun (j : Nat) hcr hlf => (h.not_between (j := j) hcr hlf).2
  generalize before.length + content.length = stop at hbyte hnot
  simp only [lineEnds, List.mem_cons, List.not_mem_nil, or_false] at hending
  -- each end is known by its last byte, and a line feed by what stands before it
  rcases hending with rfl | rfl | rfl | rfl | rfl
  · have hlf : text[stop]? = some 0x0A := hbyte (i := 0) (by decide)
    show endBefore? text (stop + 1) = _
    rw [endBefore?, hlf]
    dsimp only
    rw [if_neg, if_pos (.inl rfl)]
    rintro ⟨-, hpos, hcr⟩
    obtain ⟨j, rfl⟩ : ∃ j, stop = j + 1 := ⟨stop - 1, by omega⟩
    exact hnot j hcr hlf rfl
  · have hcr : text[stop]? = some 0x0D := hbyte (i := 0) (by decide)
    have hlf : text[stop + 1]? = some 0x0A := hbyte (i := 1) (by decide)
    show endBefore? text (stop + 1 + 1) = _
    rw [endBefore?, hlf]
    dsimp only
    rw [if_pos ⟨rfl, by omega, by simpa using hcr⟩]
    simp
  · have hcr : text[stop]? = some 0x0D := hbyte (i := 0) (by decide)
    show endBefore? text (stop + 1) = _
    rw [endBefore?, hcr]
    rfl
  · have hlast : text[stop + 2]? = some 0xA8 := hbyte (i := 2) (by decide)
    show endBefore? text (stop + 2 + 1) = _
    rw [endBefore?, hlast]
    simp
  · have hlast : text[stop + 2]? = some 0xA9 := hbyte (i := 2) (by decide)
    show endBefore? text (stop + 2 + 1) = _
    rw [endBefore?, hlast]
    simp

theorem LineCut.slice_content (h : LineCut text line before content ending rest) :
    (ofText text).slice before.length (before.length + content.length) = content := by
  show (text.drop _).take _ = _
  rw [h.text_eq, List.drop_left, Nat.add_sub_cancel_left, List.take_left]

theorem LineCut.slice_ending (h : LineCut text line before content ending rest) :
    (ofText text).slice (before.length + content.length)
      (before.length + content.length + ending.length) = ending := by
  show (text.drop _).take _ = _
  rw [h.text_eq, ← List.append_assoc, ← List.length_append, List.drop_left,
    Nat.add_sub_cancel_left, List.take_left]

theorem LineCut.slice_line (h : LineCut text line before content ending rest) :
    (ofText text).slice before.length (before.length + content.length + ending.length)
      = content ++ ending := by
  show (text.drop _).take _ = _
  rw [h.text_eq, List.drop_left, Nat.add_assoc, Nat.add_sub_cancel_left, ← List.append_assoc,
    ← List.length_append, List.take_left]

/-- **The bounds of a line** are those of its text. -/
theorem LineCut.lineBounds?_eq (h : LineCut text line before content ending rest) :
    (ofText text).lineBounds? line = some (before.length, before.length + content.length) := by
  have hstart : (ofText text).starts[line]? = some before.length := by
    have := h.start
    rwa [Nat.zero_add] at this
  have hnext : (ofText text).starts[line + 1]? = (startsFrom 0 text)[line]? := rfl
  unfold lineBounds?
  rw [if_neg (by omega), Int.toNat_natCast, hstart, hnext]
  dsimp only
  rcases h.next with ⟨rfl, rfl, hnone⟩ | ⟨hending, hsome⟩
  · rw [hnone]
    have htext : (ofText text).text.length = before.length + content.length := by
      show text.length = _
      rw [h.text_eq]
      simp
    dsimp only
    rw [htext]
  · rw [hsome, Nat.zero_add]
    dsimp only
    rw [h.slice_line, terminatorLength_append h.unbroken hending, Nat.add_sub_cancel]

end LineCut

theorem exists_cut {text : Bytes} {line : Nat} (h : line < (ofText text).lineCount) :
    ∃ before content ending rest,
      LineCut text line before content ending rest :=
  (broken_startsFrom 0 text).exists_cut (Nat.le_of_lt_succ h)

/-- Only the lines of the text have bounds. -/
theorem lt_lineCount {m : LineMap} {line : Int} {bounds : Nat × Nat}
    (h : m.lineBounds? line = some bounds) : 0 ≤ line ∧ line < m.lineCount := by
  unfold lineBounds? at h
  split at h
  next => cases h
  next hneg =>
    split at h
    next => cases h
    next start hstart =>
      have hlt : line.toNat < m.lineCount := (List.getElem?_eq_some_iff.mp hstart).1
      omega

/-! ## The whole text -/

/-- The text of the line with the number `line` lies between the offsets `start` and `stop`:
nothing in it ends a line, and it goes up to a line end in front of the next line or up to the end
of the text. -/
structure IsLine (text : Bytes) (line start stop : Nat) : Prop where
  start_eq : (ofText text).starts[line]? = some start
  start_le : start ≤ stop
  unbroken : Unbroken ((ofText text).slice start stop)
  last : line + 1 = (ofText text).lineCount → stop = text.length
  /-- One line end stands in front of the next line, and its bytes tell where this one ends. -/
  ending : ∀ next, (ofText text).starts[line + 1]? = some next → next ≤ text.length
    ∧ (ofText text).slice stop next ∈ lineEnds ∧ endBefore? text next = some stop
  /-- A carriage return and the line feed behind it are one line end. -/
  whole : ∀ j, text[j]? = some 0x0D → text[j + 1]? = some 0x0A → start ≠ j + 1 ∧ stop ≠ j + 1

theorem LineCut.isLine {text before content ending rest : Bytes} {line : Nat}
    (h : LineCut text line before content ending rest) :
    IsLine text line before.length (before.length + content.length) := by
  refine ⟨?_, Nat.le_add_right _ _, ?_, fun hlast => ?_, fun next hnext => ?_,
    fun j hcr hlf => h.not_between hcr hlf⟩
  · have := h.start
    rwa [Nat.zero_add] at this
  · rw [h.slice_content]
    exact h.unbroken
  · rcases h.next with ⟨rfl, rfl, -⟩ | ⟨-, hsome⟩
    · rw [h.text_eq]
      simp
    · have hlt : line < (startsFrom 0 text).length := (List.getElem?_eq_some_iff.mp hsome).1
      have hcount : (ofText text).lineCount = (startsFrom 0 text).length + 1 := rfl
      omega
  · have hnext' : (startsFrom 0 text)[line]? = some next := hnext
    rcases h.next with ⟨-, -, hnone⟩ | ⟨hending, hsome⟩
    · rw [hnone] at hnext'
      cases hnext'
    · rw [hsome, Nat.zero_add] at hnext'
      cases hnext'
      rw [h.slice_ending]
      refine ⟨?_, hending, h.endBefore?_eq hending⟩
      rw [h.text_eq]
      simp only [List.length_append]
      omega

/-- **Lines partition a text**, whatever its bytes are. The first line starts at its beginning and
each line behind the one before it. Exactly the numbers below the number of lines have bounds, and
between these lies a text without a line end, in front of one whole line end or of the end of the
text. -/
theorem lines_partition (text : Bytes) :
    (ofText text).starts.head? = some 0
      ∧ (ofText text).starts.Pairwise (· < ·)
      ∧ (∀ line : Int, ((ofText text).lineBounds? line).isSome
          ↔ 0 ≤ line ∧ line < (ofText text).lineCount)
      ∧ ∀ line < (ofText text).lineCount, ∃ start stop,
        (ofText text).lineBounds? line = some (start, stop) ∧ IsLine text line start stop := by
  refine ⟨rfl, (broken_startsFrom 0 text).pairwise, fun line => ⟨fun hsome => ?_, ?_⟩,
    fun line hline => ?_⟩
  · obtain ⟨bounds, hbounds⟩ := Option.isSome_iff_exists.mp hsome
    exact lt_lineCount hbounds
  · rintro ⟨hnonneg, hlt⟩
    obtain ⟨n, rfl⟩ := Int.eq_ofNat_of_zero_le hnonneg
    obtain ⟨before, content, ending, rest, hcut⟩ := exists_cut (Int.ofNat_lt.mp hlt)
    rw [hcut.lineBounds?_eq]
    rfl
  · obtain ⟨before, content, ending, rest, hcut⟩ := exists_cut hline
    exact ⟨_, _, hcut.lineBounds?_eq, hcut.isLine⟩

/-- Two line ends side by side and three more, the last one behind an empty line and in front of a
character that is cut off. -/
def mixedLineEnds : Bytes := [0x61, 0x0D, 0x0A, 0x0A, 0x0D, 0xE2, 0x80, 0xA8, 0xE2, 0x80]

theorem lines_partition_mixedLineEnds :
    3 < (ofText mixedLineEnds).lineCount ∧ (ofText mixedLineEnds).lineBounds? 3 = some (5, 5)
      ∧ IsLine mixedLineEnds 3 5 5 := by
  have hlt : 3 < (ofText mixedLineEnds).lineCount := by decide
  have hbounds : (ofText mixedLineEnds).lineBounds? 3 = some (5, 5) := by decide
  obtain ⟨start, stop, hsome, hline⟩ := (lines_partition mixedLineEnds).2.2.2 3 hlt
  cases hbounds.symm.trans hsome
  exact ⟨hlt, hbounds, hline⟩

end ScriptTidy.LineMap
