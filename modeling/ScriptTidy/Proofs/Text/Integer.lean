import ScriptTidy.Proofs.Text.Decoding
import ScriptTidy.Text.Integer

/-!
# Integers are read back from their digits

* `readInteger_intDecimal` : the digits of an integer that fits the word are read as that integer.
* `readInteger_fits` : what is read fits the word.
-/

namespace ScriptTidy

open Utf8 (toNat_toUInt8)

/-- Whether an integer can be kept in a signed 64-bit word. -/
def FitsWord (i : Int) : Prop := -halfWord ≤ i ∧ i < halfWord

/-! ## Digits -/

theorem isDigitByte_iff {b : UInt8} : isDigitByte b = true ↔ 0x30 ≤ b.toNat ∧ b.toNat ≤ 0x39 := by
  simp [isDigitByte, UInt8.le_iff_toNat_le]

theorem toNat_digit {d : Nat} (h : d < 10) : (0x30 + d).toUInt8.toNat = 0x30 + d :=
  toNat_toUInt8 (by omega)

theorem isDigitByte_digit {d : Nat} (h : d < 10) : isDigitByte (0x30 + d).toUInt8 = true := by
  rw [isDigitByte_iff, toNat_digit h]
  omega

theorem isDigitByte_of_mem_natDecimal (n : Nat) : ∀ b ∈ natDecimal n, isDigitByte b = true := by
  fun_induction natDecimal n with
  | case1 n h =>
    intro b hb
    rw [List.mem_singleton.mp hb]
    exact isDigitByte_digit h
  | case2 n h ih =>
    intro b hb
    rcases List.mem_append.mp hb with hb | hb
    · exact ih b hb
    · rw [List.mem_singleton.mp hb]
      exact isDigitByte_digit (Nat.mod_lt _ (by omega))

/-- A number other than zero does not start with a zero. -/
theorem natDecimal_eq_cons (n : Nat) : ∃ b r, natDecimal n = b :: r ∧ (b = 0x30 → n = 0) := by
  fun_induction natDecimal n with
  | case1 n h =>
    refine ⟨_, _, rfl, fun hzero => ?_⟩
    have hvalue := toNat_digit h
    rw [hzero] at hvalue
    exact (Nat.add_left_cancel hvalue).symm
  | case2 n h ih =>
    obtain ⟨b, r, hbr, hzero⟩ := ih
    refine ⟨b, r ++ [(0x30 + n % 10).toUInt8], by rw [hbr, List.cons_append], fun hb => ?_⟩
    have := hzero hb
    omega

/-! ## Reading -/

theorem readDigits_digit {acc d : Nat} (hd : d < 10) (h : 10 * acc + d < wordSpan) (ds : Bytes) :
    readDigits acc ((0x30 + d).toUInt8 :: ds) = readDigits (10 * acc + d) ds := by
  rw [readDigits]
  simp only [toNat_digit hd, isDigitByte_digit hd, Nat.add_sub_cancel_left, Bool.not_true,
    Bool.false_eq_true, if_false]
  rw [if_neg (Nat.not_le.mpr h)]

theorem readDigits_natDecimal {n : Nat} (h : n < wordSpan) (ds : Bytes) :
    readDigits 0 (natDecimal n ++ ds) = readDigits n ds := by
  fun_induction natDecimal n generalizing ds with
  | case1 n hn =>
    have hlast : readDigits 0 ((0x30 + n).toUInt8 :: ds) = readDigits (10 * 0 + n) ds :=
      readDigits_digit hn (by omega) ds
    rwa [Nat.mul_zero, Nat.zero_add] at hlast
  | case2 n hn ih =>
    have hsplit : 10 * (n / 10) + n % 10 = n := Nat.div_add_mod n 10
    rw [List.append_assoc, List.singleton_append, ih (by omega),
      readDigits_digit (Nat.mod_lt _ (by omega)) (by omega), hsplit]

theorem splitSign_natDecimal (n : Nat) : splitSign (natDecimal n) = (false, natDecimal n) := by
  obtain ⟨b, r, hbr, -⟩ := natDecimal_eq_cons n
  have hdigit := isDigitByte_iff.mp (isDigitByte_of_mem_natDecimal n b (by simp [hbr]))
  rw [hbr, splitSign]
  · rintro r' ⟨rfl, -⟩
    exact absurd hdigit (by decide)
  · rintro r' ⟨rfl, -⟩
    exact absurd hdigit (by decide)

/-- Reading an integer is reading its sign and then its digits. -/
theorem readInteger_eq {text digits : Bytes} {negative : Bool}
    (hsign : splitSign text = (negative, digits)) (hne : digits ≠ []) :
    readInteger text = (readDigits 0 digits).bind (signed negative) := by
  have hempty : digits.isEmpty = false := List.isEmpty_eq_false_iff.mpr hne
  simp only [readInteger, hsign, hempty, Bool.false_eq_true, if_false]
  rfl

theorem natDecimal_ne_nil (n : Nat) : natDecimal n ≠ [] := by
  obtain ⟨b, r, hbr, -⟩ := natDecimal_eq_cons n
  rw [hbr]
  exact List.cons_ne_nil b r

/-- **The digits of an integer that fits the word are read as that integer.** -/
theorem readInteger_intDecimal {i : Int} (h : FitsWord i) :
    readInteger (intDecimal i) = .ok i := by
  obtain ⟨hlo, hhi⟩ := h
  have hhalf : (halfWord : Int) = 0x8000000000000000 := rfl
  have hread : ∀ n : Nat, n ≤ halfWord → readDigits 0 (natDecimal n) = .ok n := by
    intro n hn
    have := readDigits_natDecimal (Nat.lt_of_le_of_lt hn (by decide)) []
    rwa [List.append_nil] at this
  cases i with
  | ofNat n =>
    have hn : n < halfWord := by
      rw [Int.ofNat_eq_natCast] at hhi
      omega
    rw [intDecimal, readInteger_eq (splitSign_natDecimal n) (natDecimal_ne_nil n),
      hread n (Nat.le_of_lt hn)]
    exact if_pos hn
  | negSucc n =>
    have hn : n + 1 ≤ halfWord := by omega
    have hsign : splitSign (0x2D :: natDecimal (n + 1)) = (true, natDecimal (n + 1)) := rfl
    rw [intDecimal, readInteger_eq hsign (natDecimal_ne_nil (n + 1)), hread (n + 1) hn]
    exact if_pos hn

theorem signed_fits {negative : Bool} {n : Nat} {i : Int} (h : signed negative n = .ok i) :
    FitsWord i := by
  unfold FitsWord
  have hhalf : (halfWord : Int) = 0x8000000000000000 := rfl
  unfold signed at h
  split at h <;> split at h <;> cases h <;> omega

/-- What is read fits the word. -/
theorem readInteger_fits {text : Bytes} {i : Int} (h : readInteger text = .ok i) :
    FitsWord i := by
  obtain ⟨negative, digits, hsign⟩ : ∃ negative digits, splitSign text = (negative, digits) :=
    ⟨_, _, rfl⟩
  by_cases hne : digits = []
  · simp only [readInteger, hsign, hne, List.isEmpty_nil, if_true] at h
    cases h
  · rw [readInteger_eq hsign hne] at h
    cases hd : readDigits 0 digits with
    | error f =>
      rw [hd] at h
      cases h
    | ok n =>
      rw [hd] at h
      exact signed_fits h

end ScriptTidy
