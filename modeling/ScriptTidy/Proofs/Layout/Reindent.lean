import Mathlib.Data.List.Chain
import ScriptTidy.Layout.Emission
import ScriptTidy.Proofs.Scanner.Trivia

/-!
# Block comments with their lines moved

Formatting replaces the indentation of the further lines of a block comment. What a scanner
sees of a comment stays the same: it still does not hold its own end, and a line ends within it
exactly if one did before.
-/

namespace ScriptTidy

open Scanner (holdsLineEnd HoldsCommentEnd)

/-! ## The end of a comment, byte by byte -/

/-- The two bytes are not the end of a comment. -/
def NotCommentEnd (a b : UInt8) : Prop := ¬ (a = 0x2A ∧ b = 0x2F)

theorem not_holdsCommentEnd_iff {v : Bytes} : ¬ HoldsCommentEnd v ↔ v.IsChain NotCommentEnd := by
  rw [List.isChain_iff_forall_rel_of_append_cons_cons]
  constructor
  · rintro h a b x y rfl ⟨rfl, rfl⟩
    exact h ⟨x, y, by simp⟩
  · rintro h ⟨x, y, hv⟩
    have hsplit : v = x ++ 0x2A :: 0x2F :: y := by
      rw [← hv]
      simp
    exact h hsplit ⟨rfl, rfl⟩

/-- White space in front of a text does not end a comment, nor does it start the end of one. -/
theorem isChain_blank_append {blank v : Bytes} (hblank : ∀ b ∈ blank, b ≠ 0x2A)
    (hv : v.IsChain NotCommentEnd) : (blank ++ v).IsChain NotCommentEnd := by
  rw [List.isChain_append]
  refine ⟨?_, hv, ?_⟩
  · rw [List.isChain_iff_forall_rel_of_append_cons_cons]
    rintro a b x y rfl ⟨rfl, _⟩
    exact hblank _ (by simp) rfl
  · rintro a ha b _ ⟨rfl, _⟩
    exact hblank _ (List.mem_of_getLast? ha) rfl

theorem isChain_joinWith {lines : List Bytes} (h : ∀ l ∈ lines, l.IsChain NotCommentEnd) :
    (Bytes.joinWith [0x0A] lines).IsChain NotCommentEnd := by
  unfold Bytes.joinWith
  induction lines with
  | nil => exact List.isChain_nil
  | cons l lines ih =>
    have hl := h l List.mem_cons_self
    cases lines with
    | nil => rwa [List.intercalate_singleton]
    | cons m lines =>
      rw [List.intercalate_cons_cons, List.append_assoc, List.isChain_append]
      refine ⟨hl, ?_, ?_⟩
      · refine isChain_blank_append (fun b hb => ?_)
          (ih fun k hk => h k (List.mem_cons_of_mem _ hk))
        rw [List.mem_singleton.mp hb]
        decide
      · rintro a _ b hb ⟨_, rfl⟩
        cases hb

/-! ## Lines -/

/-- The pieces of a text: there is a first one, all lie within the text, and there is another
one exactly if the separator occurs. -/
theorem splitOn_eq_cons (sep : UInt8) (text : Bytes) :
    ∃ first rest, Bytes.splitOn sep text = first :: rest ∧ first <+: text
      ∧ (∀ l ∈ rest, l <:+: text) ∧ (sep ∉ text → first = text ∧ rest = [])
      ∧ (sep ∈ text → rest ≠ []) := by
  induction text with
  | nil =>
    exact ⟨[], [], rfl, List.prefix_refl _, fun l hl => (by cases hl), fun _ => ⟨rfl, rfl⟩,
      fun h => (by cases h)⟩
  | cons b r ih =>
    obtain ⟨first, rest, hsplit, hfirst, hrest, hnone, hsome⟩ := ih
    have hinfix : ∀ l ∈ rest, l <:+: b :: r := fun l hl =>
      (hrest l hl).trans (List.suffix_cons b r).isInfix
    -- a separator starts a new piece, any other byte makes the first piece longer
    rw [Bytes.splitOn]
    split
    next hb =>
      refine ⟨[], first :: rest, by rw [hsplit], List.nil_prefix, ?_, ?_, ?_⟩
      · intro l hl
        rcases List.mem_cons.mp hl with rfl | hl
        · exact hfirst.isInfix.trans (List.suffix_cons b r).isInfix
        · exact hinfix l hl
      · intro hsep
        exact absurd (hb ▸ List.mem_cons_self) hsep
      · intro _
        exact List.cons_ne_nil _ _
    next hb =>
      rw [hsplit]
      refine ⟨b :: first, rest, rfl, (List.prefix_cons_inj b).mpr hfirst, hinfix, ?_, ?_⟩
      · intro hsep
        obtain ⟨rfl, hr⟩ := hnone fun h => hsep (List.mem_cons_of_mem b h)
        exact ⟨rfl, hr⟩
      · intro hsep
        rcases List.mem_cons.mp hsep with he | hmem
        · exact absurd he.symm hb
        · exact hsome hmem

/-- Splitting is that of the library, so that joining undoes it. -/
theorem splitOn_eq (sep : UInt8) (text : Bytes) :
    Bytes.splitOn sep text = List.splitOn sep text := by
  induction text with
  | nil => rw [List.splitOn_nil, Bytes.splitOn]
  | cons b r ih =>
    rw [Bytes.splitOn, List.splitOn_cons_eq_if_modifyHead, ih]
    by_cases hb : b = sep
    · rw [if_pos hb, if_pos (beq_iff_eq.mpr hb)]
    · obtain ⟨first, rest, hsplit⟩ := List.exists_cons_of_ne_nil (List.splitOn_ne_nil sep r)
      rw [if_neg hb, if_neg (mt beq_iff_eq.mp hb), hsplit]
      rfl

theorem not_mem_of_mem_splitOn {sep : UInt8} {text piece : Bytes}
    (h : piece ∈ Bytes.splitOn sep text) : sep ∉ piece := by
  induction text generalizing piece with
  | nil =>
    obtain rfl := List.mem_singleton.mp h
    exact List.not_mem_nil
  | cons b r ih =>
    obtain ⟨first, rest, hsplit, _⟩ := splitOn_eq_cons sep r
    rw [hsplit] at ih
    rw [Bytes.splitOn, hsplit] at h
    split at h
    next =>
      rcases List.mem_cons.mp h with rfl | h
      · exact List.not_mem_nil
      · exact ih h
    next hb =>
      rcases List.mem_cons.mp h with rfl | h
      · rw [List.mem_cons, not_or]
        exact ⟨fun he => hb he.symm, ih List.mem_cons_self⟩
      · exact ih (List.mem_cons_of_mem _ h)

theorem splitOn_joinWith {sep : UInt8} {lines : List Bytes} (h : ∀ l ∈ lines, sep ∉ l)
    (hne : lines ≠ []) : Bytes.splitOn sep (Bytes.joinWith [sep] lines) = lines := by
  rw [splitOn_eq]
  exact List.splitOn_intercalate sep h hne

theorem holdsLineEnd_of_mem {v : Bytes} (h : 0x0A ∈ v) : holdsLineEnd v = true := by
  obtain ⟨x, y, rfl⟩ := List.append_of_mem h
  rw [holdsLineEnd, Utf8.chars, Utf8.glyphs_append x (Utf8.fresh_cons (by decide)),
    Utf8.glyphs_ascii_cons (by decide), List.map_append, List.any_append, List.map_cons,
    List.any_cons]
  simp [isLineTerminator]

namespace Layout

variable {text indentation : Bytes} {column : Int}

/-- A comment of one line is not changed. -/
theorem reindent_of_not_mem (h : 0x0A ∉ text) : reindent text column indentation = text := by
  obtain ⟨first, rest, hsplit, _, _, hnone, _⟩ := splitOn_eq_cons 0x0A text
  obtain ⟨rfl, rfl⟩ := hnone h
  rw [reindent, hsplit]
  exact List.intercalate_singleton

/-- A comment of several lines stays one. -/
theorem mem_reindent (h : 0x0A ∈ text) : 0x0A ∈ reindent text column indentation := by
  obtain ⟨first, rest, hsplit, _, _, _, hsome⟩ := splitOn_eq_cons 0x0A text
  obtain ⟨second, rest, rfl⟩ := List.exists_cons_of_ne_nil (hsome h)
  rw [reindent, hsplit]
  dsimp only
  rw [Bytes.joinWith, List.map_cons, List.intercalate_cons_cons]
  simp

theorem holdsLineEnd_reindent :
    holdsLineEnd (reindent text column indentation) = holdsLineEnd text := by
  by_cases h : 0x0A ∈ text
  · rw [holdsLineEnd_of_mem (mem_reindent h), holdsLineEnd_of_mem h]
  · rw [reindent_of_not_mem h]

/-- **A comment with its lines moved does not hold its own end**, if it did not before. -/
theorem not_holdsCommentEnd_reindent (hblank : ∀ b ∈ indentation, b ≠ 0x2A)
    (h : ¬ HoldsCommentEnd text) : ¬ HoldsCommentEnd (reindent text column indentation) := by
  rw [not_holdsCommentEnd_iff] at h ⊢
  -- Each line is a part of the text, with blanks in front of it at most.
  obtain ⟨first, rest, hsplit, hfirst, hrest, _⟩ := splitOn_eq_cons 0x0A text
  rw [reindent, hsplit]
  refine isChain_joinWith fun line hline => ?_
  rcases List.mem_cons.mp hline with rfl | hline
  · exact List.IsChain.infix h hfirst.isInfix
  · obtain ⟨l, hl, rfl⟩ := List.mem_map.mp hline
    refine isChain_blank_append hblank ?_
    exact List.IsChain.infix h ((List.drop_suffix _ l).isInfix.trans (hrest l hl))

/-! ## Moving the lines again -/

/-- White space that was put in front of a line is taken off it again, if the comment starts
behind as much of it. -/
theorem stripBlanks_append (hblank : ∀ b ∈ indentation, b = 0x20 ∨ b = 0x09) (line : Bytes) :
    stripBlanks indentation.length (indentation ++ line) = line := by
  have hall : ∀ b ∈ indentation, (b == 0x20 || b == 0x09) = true := by
    intro b hb
    rcases hblank b hb with rfl | rfl <;> rfl
  unfold stripBlanks
  dsimp only
  rw [List.takeWhile_append_of_pos hall, List.length_append, Int.toNat_natCast,
    Nat.min_eq_right (Nat.le_add_right _ _), List.drop_left]

/-- **Moving the lines of a comment does nothing if they were moved before** and the comment now
starts where the lines do. -/
theorem reindent_reindent (hblank : ∀ b ∈ indentation, b = 0x20 ∨ b = 0x09) (text : Bytes)
    (column : Int) : reindent (reindent text column indentation) indentation.length indentation =
      reindent text column indentation := by
  obtain ⟨first, rest, hsplit, _⟩ := splitOn_eq_cons 0x0A text
  -- the lines of the new text are the old ones, moved
  have hlines : ∀ l ∈ first :: rest.map fun line => indentation ++ stripBlanks column line,
      (0x0A : UInt8) ∉ l := by
    intro l hl
    have hpieces : ∀ piece ∈ first :: rest, (0x0A : UInt8) ∉ piece := fun piece hp =>
      not_mem_of_mem_splitOn (hsplit ▸ hp)
    rcases List.mem_cons.mp hl with rfl | hl
    · exact hpieces _ List.mem_cons_self
    · obtain ⟨line, hline, rfl⟩ := List.mem_map.mp hl
      rw [List.mem_append, not_or]
      refine ⟨fun hmem => ?_, fun hmem => ?_⟩
      · rcases hblank _ hmem with he | he <;> cases he
      · exact hpieces line (List.mem_cons_of_mem _ hline) (List.drop_subset _ _ hmem)
  have hreindent : reindent text column indentation = Bytes.joinWith [0x0A]
      (first :: rest.map fun line => indentation ++ stripBlanks column line) := by
    rw [reindent, hsplit]
  rw [hreindent, reindent, splitOn_joinWith hlines (List.cons_ne_nil _ _)]
  dsimp only
  rw [List.map_map]
  congr 2
  refine List.map_congr_left fun line _ => ?_
  exact congrArg (indentation ++ ·) (stripBlanks_append hblank _)

/-- The text of a comment is known from what follows it. -/
theorem eq_of_append_commentEnd {v w x y : Bytes} (hv : ¬ HoldsCommentEnd v)
    (hw : ¬ HoldsCommentEnd w) (h : v ++ (utf8 "*/" ++ x) = w ++ (utf8 "*/" ++ y)) : v = w := by
  have hend : utf8 "*/" = [0x2A, 0x2F] := by decide
  rw [hend] at h
  -- The shorter one is a part of the longer one, which would go on with the end.
  have hlonger : ∀ {a b c d : Bytes}, ¬ HoldsCommentEnd b → a ++ ([0x2A, 0x2F] ++ c) =
      b ++ ([0x2A, 0x2F] ++ d) → a.length < b.length → False := by
    intro a b c d hb he hlt
    obtain ⟨k, hk⟩ : ∃ k, b = a ++ k :=
      have hpre : a <+: b := List.prefix_of_prefix_length_le (List.prefix_append _ _)
        (he ▸ List.prefix_append b _) (Nat.le_of_lt hlt)
      ⟨_, hpre.choose_spec.symm⟩
    subst hk
    rw [List.append_assoc, List.append_cancel_left_eq] at he
    match k, he with
    | [], _ => simp at hlt
    | [p], he => simp at he
    | p :: q :: k, he =>
      simp only [List.cons_append, List.cons.injEq, List.nil_append] at he
      exact hb ⟨a, k, by simp [he.1, he.2.1]⟩
  rcases Nat.lt_trichotomy v.length w.length with hlt | heq | hlt
  · exact (hlonger hw h hlt).elim
  · exact (List.append_inj h heq).1
  · exact (hlonger hv h.symm hlt).elim

end Layout

end ScriptTidy
