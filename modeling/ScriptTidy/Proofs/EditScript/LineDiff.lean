import ScriptTidy.EditScript.LineDiff
import ScriptTidy.Proofs.Layout.Reindent

/-!
# Line differences spell both texts

How a difference is found is left open here: any script will do whose edits are texts of whole
lines, none of them empty, that make up the two texts. What is written for such a script is read
again line by line. Without the lines marked as inserted it spells the first text, without those
marked as deleted the second, whether or not these end with a line feed.

* `textLines` : the lines of a text.
* `textLines_append` : texts of whole lines one behind the other.
* `IsLineScript` : scripts of whole lines.
* `lineDiffWith_spells` : what is written for them.
-/

namespace ScriptTidy

/-! ## The lines of a text -/

/-- The lines of a text without their line feeds. The last line may do without one; an empty text
has no lines. -/
def textLines (text : Bytes) : List Bytes :=
  if text = [] then [] else Bytes.splitOn 0x0A (Bytes.trimTail [0x0A] text)

theorem trimTail_concat (x : Bytes) (b : UInt8) :
    Bytes.trimTail [0x0A] (x ++ [b]) = if b = 0x0A then x else x ++ [b] := by
  unfold Bytes.trimTail
  rw [List.reverse_append, List.reverse_singleton, List.reverse_singleton, List.singleton_append,
    Bytes.dropHead?]
  by_cases hb : b = 0x0A
  · rw [if_pos hb, if_pos hb.symm, Bytes.dropHead?]
    exact List.reverse_reverse x
  · rw [if_neg hb, if_neg (Ne.symm hb)]

/-- A text that ends elsewhere is not trimmed at its front. -/
theorem trimTail_append {y : Bytes} (x : Bytes) (hy : y ≠ []) :
    Bytes.trimTail [0x0A] (x ++ y) = x ++ Bytes.trimTail [0x0A] y := by
  obtain ⟨z, b, rfl⟩ := List.eq_nil_or_concat' y |>.resolve_left hy
  rw [← List.append_assoc, trimTail_concat, trimTail_concat]
  by_cases hb : b = 0x0A
  · rw [if_pos hb, if_pos hb]
  · rw [if_neg hb, if_neg hb, List.append_assoc]

theorem splitOn_line {x : Bytes} (hx : 0x0A ∉ x) (y : Bytes) :
    Bytes.splitOn 0x0A (x ++ 0x0A :: y) = x :: Bytes.splitOn 0x0A y := by
  induction x with
  | nil => rfl
  | cons b x ih =>
    obtain ⟨hb, hx⟩ : ¬ 0x0A = b ∧ 0x0A ∉ x := by simpa using hx
    rw [List.cons_append, Bytes.splitOn, if_neg (Ne.symm hb), ih hx]

theorem splitOn_of_not_mem {x : Bytes} (hx : 0x0A ∉ x) : Bytes.splitOn 0x0A x = [x] := by
  obtain ⟨first, rest, hsplit, -, -, hnone, -⟩ := splitOn_eq_cons 0x0A x
  obtain ⟨rfl, rfl⟩ := hnone hx
  exact hsplit

/-- Each line feed ends a line. -/
theorem textLines_line {x : Bytes} (hx : 0x0A ∉ x) (y : Bytes) :
    textLines (x ++ 0x0A :: y) = x :: textLines y := by
  unfold textLines
  rw [if_neg (List.append_ne_nil_of_right_ne_nil _ (List.cons_ne_nil _ _))]
  by_cases hy : y = []
  · subst hy
    rw [if_pos rfl, trimTail_concat, if_pos rfl, splitOn_of_not_mem hx]
  · rw [if_neg hy, List.append_cons, trimTail_append _ hy, ← List.append_cons, splitOn_line hx]

/-- **Behind a line feed, lines start anew.** -/
theorem textLines_append {a : Bytes} (ha : a.getLast? = some 0x0A) (b : Bytes) :
    textLines (a ++ b) = textLines a ++ textLines b := by
  induction hn : a.length using Nat.strongRecOn generalizing a with
  | ind n ih =>
    obtain ⟨x, y, rfl, hx⟩ := List.eq_append_cons_of_mem (List.mem_of_getLast? ha)
    rw [List.append_assoc, List.cons_append, textLines_line hx, textLines_line hx]
    -- induction on the length: what is left behind a line feed still ends with one, or is empty
    by_cases hy : y = []
    · subst hy
      rfl
    · have hlast : y.getLast? = some 0x0A := by
        rw [← ha, List.getLast?_append_of_ne_nil _ (List.cons_ne_nil _ _), List.getLast?_cons,
          List.getLast?_eq_some_getLast hy]
        rfl
      have hlength : y.length < n := by
        rw [← hn, List.length_append, List.length_cons]
        omega
      rw [ih y.length hlength hlast rfl, List.cons_append]

/-- Lines that are written with a line feed each are read again. -/
theorem textLines_flatMap {lines : List Bytes} (h : ∀ line ∈ lines, 0x0A ∉ line) :
    textLines (lines.flatMap (· ++ [0x0A])) = lines := by
  induction lines with
  | nil => rfl
  | cons line lines ih =>
    rw [List.flatMap_cons, List.append_assoc, List.singleton_append,
      textLines_line (h line List.mem_cons_self)]
    rw [ih fun l hl => h l (List.mem_cons_of_mem line hl)]

theorem newline_not_mem_textLines {text line : Bytes} (h : line ∈ textLines text) :
    0x0A ∉ line := by
  unfold textLines at h
  by_cases htext : text = []
  · rw [if_pos htext] at h
    cases h
  · rw [if_neg htext] at h
    exact not_mem_of_mem_splitOn h

/-! ## Scripts of whole lines -/

/-- Texts of whole lines: only the last of them can do without a line feed at its end. -/
def WholeLines (texts : List Bytes) : Prop := ∀ text ∈ texts.dropLast, text.getLast? = some 0x0A

instance (texts : List Bytes) : Decidable (WholeLines texts) :=
  inferInstanceAs (Decidable (∀ text ∈ texts.dropLast, text.getLast? = some 0x0A))

theorem textLines_flatten {texts : List Bytes} (h : WholeLines texts) :
    textLines texts.flatten = texts.flatMap textLines := by
  induction texts with
  | nil => rfl
  | cons text texts ih =>
    cases texts with
    | nil => simp
    | cons next texts =>
      have hfirst : text.getLast? = some 0x0A := h text List.mem_cons_self
      have hrest : WholeLines (next :: texts) := fun t ht => h t (List.mem_cons_of_mem text ht)
      rw [List.flatten_cons, textLines_append hfirst, ih hrest]
      rfl

/-- The texts of a script that belong to a side of it, which is all but the edits of one kind. -/
def textsWithout (kind : EditKind) (script : List (Edit UInt8)) : List Bytes :=
  (script.filter (·.kind != kind)).map (·.items)

/-- The script leads from one text to the other by whole lines. An edit without a text would be
written as an empty line. -/
structure IsLineScript (before after : Bytes) (script : List (Edit UInt8)) : Prop where
  nonempty : ∀ e ∈ script, e.items ≠ []
  before_eq : (textsWithout .insert script).flatten = before
  after_eq : (textsWithout .delete script).flatten = after
  before_lines : WholeLines (textsWithout .insert script)
  after_lines : WholeLines (textsWithout .delete script)

/-! ## What is written for a script -/

/-- The lines of a difference without those of a mark, with the other marks taken off. -/
def linesWithout (kind : EditKind) (diff : Bytes) : List Bytes :=
  ((textLines diff).filter (·.head? != some kind.mark)).map List.tail

/-- The lines that are written for an edit. -/
def markedLines (e : Edit UInt8) : List Bytes := (textLines e.items).map (e.kind.mark :: ·)

variable {script : List (Edit UInt8)}

theorem render_eq_flatMap {e : Edit UInt8} (h : e.items ≠ []) :
    e.render = (markedLines e).flatMap (· ++ [0x0A]) := by
  unfold Edit.render markedLines textLines
  rw [if_neg h, List.flatMap_map]
  rfl

theorem newline_not_mem_markedLines {e : Edit UInt8} {line : Bytes} (h : line ∈ markedLines e) :
    0x0A ∉ line := by
  obtain ⟨text, htext, rfl⟩ := List.mem_map.mp h
  have hmark : e.kind.mark ≠ 0x0A := by cases e.kind <;> simp [EditKind.mark]
  simp [Ne.symm hmark, newline_not_mem_textLines htext]

/-- **A difference is read line by line.** -/
theorem textLines_render (h : ∀ e ∈ script, e.items ≠ []) :
    textLines (script.flatMap Edit.render) = script.flatMap markedLines := by
  have hrender : script.flatMap Edit.render =
      (script.flatMap markedLines).flatMap (· ++ [0x0A]) := by
    rw [List.flatMap_assoc]
    exact List.flatMap_congr fun e he => render_eq_flatMap (h e he)
  rw [hrender]
  apply textLines_flatMap
  intro line hline
  obtain ⟨e, -, hline⟩ := List.mem_flatMap.mp hline
  exact newline_not_mem_markedLines hline

theorem mark_injective {k l : EditKind} (h : k.mark = l.mark) : k = l := by
  cases k <;> cases l <;> simp [EditKind.mark] at h ⊢

/-- The lines of an edit are all kept or all left out. -/
theorem linesWithout_markedLines (kind : EditKind) (e : Edit UInt8) :
    ((markedLines e).filter (·.head? != some kind.mark)).map List.tail =
      if e.kind != kind then textLines e.items else [] := by
  unfold markedLines
  by_cases hkind : e.kind = kind
  · subst hkind
    simp
  · have hmark : e.kind.mark ≠ kind.mark := fun h => hkind (mark_injective h)
    simp [hkind, hmark, List.filter_map, Function.comp_def]

/-- **Leaving out the lines of one mark spells the side that has none of them.** -/
theorem linesWithout_render (kind : EditKind) (h : ∀ e ∈ script, e.items ≠ [])
    (hlines : WholeLines (textsWithout kind script)) :
    linesWithout kind (script.flatMap Edit.render) =
      textLines (textsWithout kind script).flatten := by
  unfold linesWithout
  rw [textLines_render h, textLines_flatten hlines]
  unfold textsWithout
  clear h hlines
  induction script with
  | nil => rfl
  | cons e script ih =>
    rw [List.flatMap_cons, List.filter_append, List.map_append, linesWithout_markedLines, ih,
      List.filter_cons]
    by_cases hkind : (e.kind != kind) = true
    · rw [if_pos hkind, if_pos hkind, List.map_cons, List.flatMap_cons]
    · rw [if_neg hkind, if_neg hkind, List.nil_append]

theorem render_ne_nil (e : Edit UInt8) : e.render ≠ [] := by
  obtain ⟨first, rest, hsplit, -⟩ := splitOn_eq_cons 0x0A (Bytes.trimTail [0x0A] e.items)
  unfold Edit.render
  rw [hsplit]
  simp

/-- Different texts have a difference. -/
theorem flatMap_render_ne_nil {before after : Bytes} (hne : before ≠ after)
    (h : IsLineScript before after script) : script.flatMap Edit.render ≠ [] := by
  cases script with
  | nil => exact absurd (h.before_eq.symm.trans h.after_eq) hne
  | cons e script =>
    rw [List.flatMap_cons]
    exact List.append_ne_nil_of_left_ne_nil (render_ne_nil e) _

/-- **A difference spells both texts.** For any way to find a script of whole lines: equal texts
and only these have no difference; otherwise each line of the difference has a mark, those without
an insertion spell the first text line by line, and those without a deletion the second. -/
theorem lineDiffWith_spells {find : Bytes → Bytes → List (Edit UInt8)} {before after : Bytes}
    (h : before ≠ after → IsLineScript before after (find before after)) :
    (lineDiffWith find before after = [] ↔ before = after)
    ∧ (before ≠ after →
      (∀ line ∈ textLines (lineDiffWith find before after), ∃ kind rest,
        line = EditKind.mark kind :: rest)
      ∧ linesWithout .insert (lineDiffWith find before after) = textLines before
      ∧ linesWithout .delete (lineDiffWith find before after) = textLines after) := by
  unfold lineDiffWith
  by_cases hsame : before = after
  · rw [if_pos hsame]
    exact ⟨iff_of_true rfl hsame, fun hne => absurd hsame hne⟩
  · rw [if_neg hsame]
    have hscript := h hsame
    refine ⟨iff_of_false (flatMap_render_ne_nil hsame hscript) hsame, fun _ => ⟨?_, ?_, ?_⟩⟩
    · intro line hline
      rw [textLines_render hscript.nonempty] at hline
      obtain ⟨e, -, hline⟩ := List.mem_flatMap.mp hline
      obtain ⟨rest, -, rfl⟩ := List.mem_map.mp hline
      exact ⟨e.kind, rest, rfl⟩
    · rw [linesWithout_render .insert hscript.nonempty hscript.before_lines, hscript.before_eq]
    · rw [linesWithout_render .delete hscript.nonempty hscript.after_lines, hscript.after_eq]

/-- Empty lines, and a first text that does not end its last line. -/
theorem lineDiffWith_spells_emptyLines :
    IsLineScript (utf8 "a\n\nb") (utf8 "\na\nc\n\n")
      (lineScript (utf8 "a\n\nb") (utf8 "\na\nc\n\n"))
    ∧ lineDiff (utf8 "a\n\nb") (utf8 "\na\nc\n\n") = utf8 "+\n a\n+c\n \n-b\n"
    ∧ linesWithout .insert (utf8 "+\n a\n+c\n \n-b\n") = [utf8 "a", [], utf8 "b"]
    ∧ linesWithout .delete (utf8 "+\n a\n+c\n \n-b\n") = [[], utf8 "a", utf8 "c", []] := by
  have hscript : IsLineScript (utf8 "a\n\nb") (utf8 "\na\nc\n\n")
      (lineScript (utf8 "a\n\nb") (utf8 "\na\nc\n\n")) :=
    ⟨by decide +kernel, by decide +kernel, by decide +kernel, by decide +kernel,
      by decide +kernel⟩
  have hdiff : lineDiff (utf8 "a\n\nb") (utf8 "\na\nc\n\n") = utf8 "+\n a\n+c\n \n-b\n" := by
    decide +kernel
  obtain ⟨-, hspells⟩ := lineDiffWith_spells fun _ => hscript
  obtain ⟨-, hbefore, hafter⟩ := hspells (by decide +kernel)
  have hsame : lineDiffWith lineScript (utf8 "a\n\nb") (utf8 "\na\nc\n\n") = _ := hdiff
  rw [hsame] at hbefore hafter
  exact ⟨hscript, hdiff, hbefore.trans (by decide +kernel), hafter.trans (by decide +kernel)⟩

end ScriptTidy
