import ScriptTidy.Text.Decimal
import ScriptTidy.Text.Identifier
import ScriptTidy.Text.Space

/-!
# Classes of characters

The classes that the scanner asks for, said in code points, and which of them are disjoint.

* `isValidChar_of_isIdentifierPart` : no surrogate is an identifier character, so a name that
  was spelled with escapes can be written out.
* `not_isIdentifierPart_of_blank` : nothing that separates tokens continues a name.
-/

namespace ScriptTidy

theorem isLineTerminator_iff {c : Char} : isLineTerminator c = true ↔
    c.toNat = 0x0A ∨ c.toNat = 0x0D ∨ c.toNat = 0x2028 ∨ c.toNat = 0x2029 := by
  unfold isLineTerminator lineSeparator paragraphSeparator
  simp only [Bool.or_eq_true, beq_iff_eq, ← Char.toNat_inj, or_assoc]
  rfl

theorem CodePointSet.exists_of_has {ranges : CodePointSet} {n : Nat} (h : ranges.has n = true) :
    ∃ r ∈ ranges, r.1 ≤ n ∧ n ≤ r.2 := by
  induction ranges with
  | nil => cases h
  | cons r ranges ih =>
    unfold has at h
    split at h
    · cases h
    · next hlo =>
      rw [Bool.or_eq_true, decide_eq_true_eq] at h
      rcases h with h | h
      · exact ⟨r, List.mem_cons_self, by omega, h⟩
      · obtain ⟨k, hk, hkn⟩ := ih h
        exact ⟨k, List.mem_cons_of_mem _ hk, hkn⟩

/-- The range has neither surrogates nor numbers beyond the last code point. -/
def CodePointSet.validRange (r : Nat × Nat) : Bool :=
  r.2 < 0xD800 || (0xE000 ≤ r.1 && r.2 < 0x110000)

theorem CodePointSet.isValidChar_of_has {ranges : CodePointSet} {n : Nat}
    (hall : ranges.all validRange = true) (h : ranges.has n = true) : n.isValidChar := by
  obtain ⟨r, hr, hlo, hhi⟩ := exists_of_has h
  have hvalid := List.all_eq_true.mp hall r hr
  unfold validRange at hvalid
  simp only [Bool.or_eq_true, Bool.and_eq_true, decide_eq_true_eq] at hvalid
  unfold Nat.isValidChar
  omega

/-- **An identifier character is a character**: surrogates are none. -/
theorem isValidChar_of_isIdentifierPart {n : Nat} (h : isIdentifierPart n = true) :
    n.isValidChar := by
  unfold isIdentifierPart isIdentifierStart at h
  by_cases hn : n < 0x80
  · exact Or.inl (by omega)
  · simp only [hn, if_false, Bool.or_eq_true] at h
    rcases h with h | h
    · exact CodePointSet.isValidChar_of_has (by decide +kernel) h
    · exact CodePointSet.isValidChar_of_has (by decide +kernel) h

theorem isIdentifierPart_of_isIdentifierStart {n : Nat} (h : isIdentifierStart n = true) :
    isIdentifierPart n = true := by
  unfold isIdentifierPart
  rw [h, Bool.true_or]

/-- What separates tokens within a line or ends it: a character of one of few code points. -/
theorem mem_of_isScriptSpace {c : Char} (h : isScriptSpace c = true) :
    c.toNat ∈ [0x20, 0x09, 0x0B, 0x0C, 0xFEFF, 0xA0, 0x1680, 0x2000, 0x2001, 0x2002, 0x2003,
      0x2004, 0x2005, 0x2006, 0x2007, 0x2008, 0x2009, 0x200A, 0x202F, 0x205F, 0x3000] := by
  unfold isScriptSpace at h
  simp only [Bool.or_eq_true, beq_iff_eq, ← Char.toNat_inj] at h
  rcases h with ((((h | h) | h) | h) | h) | h
  · rw [h]
    decide
  · rw [h]
    decide
  · rw [h]
    decide
  · rw [h]
    decide
  · rw [h]
    decide
  · obtain ⟨r, hr, hlo, hhi⟩ := CodePointSet.exists_of_has h
    simp only [spaceSeparators, List.mem_cons, List.not_mem_nil, or_false] at hr
    simp only [List.mem_cons, List.not_mem_nil, or_false]
    rcases hr with rfl | rfl | rfl | rfl | rfl | rfl
    all_goals
      dsimp only at hlo hhi
      omega

/-- **Nothing that separates tokens continues a name.** -/
theorem not_isIdentifierPart_of_blank {c : Char}
    (h : isScriptSpace c = true ∨ isLineTerminator c = true) :
    isIdentifierPart c.toNat = false := by
  have hcheck : ∀ n ∈ [0x20, 0x09, 0x0B, 0x0C, 0xFEFF, 0xA0, 0x1680, 0x2000, 0x2001, 0x2002,
      0x2003, 0x2004, 0x2005, 0x2006, 0x2007, 0x2008, 0x2009, 0x200A, 0x202F, 0x205F, 0x3000,
      0x0A, 0x0D, 0x2028, 0x2029], isIdentifierPart n = false := by decide +kernel
  refine hcheck c.toNat ?_
  rcases h with h | h
  · exact List.mem_append_left [0x0A, 0x0D, 0x2028, 0x2029] (mem_of_isScriptSpace h)
  · rw [isLineTerminator_iff] at h
    simp only [List.mem_cons, List.not_mem_nil, or_false]
    omega

/-- The visible ASCII characters separate nothing. -/
theorem not_blank_of_visible {c : Char} (h : 0x20 < c.toNat ∧ c.toNat < 0x7F) :
    isLineTerminator c = false ∧ isScriptSpace c = false := by
  refine ⟨?_, ?_⟩
  · rw [← Bool.not_eq_true, isLineTerminator_iff]
    omega
  · rw [← Bool.not_eq_true]
    intro hs
    have := mem_of_isScriptSpace hs
    simp only [List.mem_cons, List.not_mem_nil, or_false] at this
    omega

end ScriptTidy
