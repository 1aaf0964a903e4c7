import ScriptTidy.Proofs.SourceMap.Words

/-!
# Digits of numbers

A number of a source map has one text that the loop over a word writes, and the reader tells from
the digits alone where it ends. No text that is read as the number is shorter: each digit has five
bits for it, and the loop stops as soon as no bits are left.

* `Vlq.loop_iff` : the loop writes one text and no other.
* `Vlq.length_encode_le` : the text is a shortest one.
* `Vlq.fields?_concatenated` : numbers that are written one after the other.
-/

namespace ScriptTidy.Vlq

/-! ## One text -/

/-- What the loop has written is fixed by the word it starts with. -/
theorem Loop.unique {w : Int} {text text' : Bytes} (h : Loop w text) (h' : Loop w text') :
    text = text' := by
  induction h generalizing text' with
  | last hdone =>
    cases h' with
    | last => rfl
    | more hmore => exact absurd hdone hmore
  | more hmore _ ih =>
    cases h' with
    | last hdone => exact absurd hdone hmore
    | more _ hrest => rw [ih hrest]

/-- **The loop ends, and what it writes is the written form.** -/
theorem loop_iff {v : Int} (h : -2 ^ 62 < v ∧ v < 2 ^ 62) {text : Bytes} :
    Loop (shifted v) text ↔ text = encode v := by
  constructor
  · intro hloop
    exact hloop.unique (loop_encode h)
  · rintro rfl
    exact loop_encode h

/-! ## As few digits as possible -/

theorem digitValue?_lt {b : UInt8} {d : Nat} (h : digitValue? b = some d) : d < 64 := by
  unfold digitValue? at h
  dsimp only at h
  by_cases hidx : alphabet.idxOf b < alphabet.length
  · rw [if_pos hidx] at h
    cases h
    exact hidx
  · rw [if_neg hidx] at h
    cases h

theorem length_encodeNat_pos (n : Nat) : 0 < (encodeNat n).length := by
  rw [encodeNat]
  by_cases hlast : n < 32
  · rw [if_pos hlast]
    exact Nat.one_pos
  · rw [if_neg hlast]
    exact Nat.succ_pos _

/-- A text that is read as a natural number has a digit for each group of five bits. -/
theorem length_encodeNat_le {text rest : Bytes} :
    ∀ {n : Nat}, decodeNat? text = some (n, rest) →
      (encodeNat n).length + rest.length ≤ text.length := by
  induction text with
  | nil =>
    intro n h
    cases h
  | cons b text ih =>
    intro n h
    rw [decodeNat?] at h
    cases hb : digitValue? b with
    | none =>
      rw [hb] at h
      cases h
    | some d =>
      rw [hb] at h
      dsimp only at h
      have hd := digitValue?_lt hb
      by_cases hlast : d < 32
      · rw [if_pos hlast] at h
        cases h
        rw [encodeNat, if_pos hlast, List.length_singleton, List.length_cons]
        omega
      · rw [if_neg hlast] at h
        cases htext : decodeNat? text with
        | none =>
          rw [htext] at h
          cases h
        | some read =>
          obtain ⟨high, rest'⟩ := read
          rw [htext] at h
          cases h
          have hrest := ih htext
          have hpos := length_encodeNat_pos high
          rw [encodeNat, List.length_cons]
          -- high groups that are all zero are not written
          by_cases hsmall : d - 32 + 32 * high < 32
          · rw [if_pos hsmall, List.length_singleton]
            omega
          · have hhigh : (d - 32 + 32 * high) / 32 = high := by omega
            rw [if_neg hsmall, hhigh, List.length_cons]
            omega

/-- Only zero has a second form, with its sign set. -/
theorem eq_fold_of_unfold {n : Nat} {v : Int} (hv : v.natAbs < 2 ^ 63) (h : unfold n = v) :
    n = fold v ∨ v = 0 := by
  unfold fold unfold at *
  have hspan : wordSpan = 2 ^ 64 := rfl
  by_cases hodd : n % 2 = 1
  · rw [if_pos hodd] at h
    by_cases hneg : v < 0
    · left
      rw [if_pos hneg, Nat.mod_eq_of_lt (by omega)]
      omega
    · right
      omega
  · left
    rw [if_neg hodd] at h
    rw [if_neg (by omega), Nat.mod_eq_of_lt (by omega)]
    omega

/-- **No text that is read as the number has fewer digits.** -/
theorem length_encode_le {text rest : Bytes} {v : Int} (hv : v.natAbs < 2 ^ 63)
    (h : decode? text = some (v, rest)) : (encode v).length + rest.length ≤ text.length := by
  unfold decode? at h
  cases htext : decodeNat? text with
  | none =>
    rw [htext] at h
    cases h
  | some read =>
    obtain ⟨n, rest'⟩ := read
    rw [htext] at h
    obtain ⟨hn, rfl⟩ : unfold n = v ∧ rest' = rest := by simpa using h
    rcases eq_fold_of_unfold hv hn with rfl | rfl
    · exact length_encodeNat_le htext
    · -- any text has a digit at least, and the shortest form of zero has no more
      have hone : (encode 0).length = 1 := by
        show (encodeNat 0).length = 1
        rw [encodeNat]
        rfl
      have hlt := decodeNat?_length_lt htext
      omega

/-! ## Many numbers -/

/-- **Numbers one after the other are told apart, and none could be shorter.** The loop ends for
each of them; the digits that it writes are characters of the alphabet, and are read back as the
numbers. -/
theorem fields?_concatenated {values : List Int} (h : ∀ v ∈ values, -2 ^ 62 < v ∧ v < 2 ^ 62) :
    (∀ v ∈ values, ∀ text, Loop (shifted v) text ↔ text = encode v)
    ∧ (∀ b ∈ values.flatMap encode, b ∈ alphabet)
    ∧ fields? (values.flatMap encode) = some values
    ∧ ∀ v ∈ values, ∀ text rest, decode? text = some (v, rest) →
        (encode v).length + rest.length ≤ text.length := by
  have hbound : ∀ v ∈ values, v.natAbs < 2 ^ 63 := by
    intro v hv
    have hrange := h v hv
    omega
  refine ⟨?_, ?_, fields?_encode hbound, ?_⟩
  · intro v hv text
    exact loop_iff (h v hv)
  · intro b hb
    obtain ⟨v, _, hv⟩ := List.mem_flatMap.mp hb
    exact mem_alphabet_of_mem_encodeNat (fold v) b hv
  · intro v hv text rest hread
    exact length_encode_le (hbound v hv) hread

/-- Short numbers, and the ends of the range. -/
def sampleNumbers : List Int := [0, -123, 16, 2 ^ 62 - 1, 1 - 2 ^ 62]

theorem fields?_concatenated_sample :
    (∀ v ∈ sampleNumbers, -2 ^ 62 < v ∧ v < 2 ^ 62)
    ∧ sampleNumbers.flatMap encode = utf8 "A3HgB+///////////H////////////H"
    ∧ (∀ b ∈ utf8 "A3HgB+///////////H////////////H", b ∈ alphabet)
    ∧ fields? (utf8 "A3HgB+///////////H////////////H") = some sampleNumbers
    ∧ ∀ text rest, decode? text = some (2 ^ 62 - 1, rest) → 13 + rest.length ≤ text.length := by
  have hrange : ∀ v ∈ sampleNumbers, -2 ^ 62 < v ∧ v < 2 ^ 62 := by
    simp [sampleNumbers]
  have htext : sampleNumbers.flatMap encode = utf8 "A3HgB+///////////H////////////H" := by
    cbv
  obtain ⟨-, halphabet, hfields, hshortest⟩ := fields?_concatenated hrange
  rw [htext] at halphabet hfields
  refine ⟨hrange, htext, halphabet, hfields, fun text rest hread => ?_⟩
  have hlength : (encode (2 ^ 62 - 1)).length = 13 := by cbv
  have hle := hshortest (2 ^ 62 - 1) (by simp [sampleNumbers]) text rest hread
  rwa [hlength] at hle

end ScriptTidy.Vlq
