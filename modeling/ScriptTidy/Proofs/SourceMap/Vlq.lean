import Mathlib.Algebra.Ring.Int.Defs
import Mathlib.Algebra.Ring.Nat
import Mathlib.Data.List.Nodup
import ScriptTidy.SourceMap.Lookup

/-!
# Reading back variable length numbers

What `Vlq.encode` writes is read back by `Vlq.decode?`, whatever stands behind it, as long as
the number and its sign fit a 64-bit word. The digits tell by themselves where a number ends, so
numbers written one after the other need nothing between them.

* `decode?_encode` : one number, with anything behind it.
* `fields?_encode` : a list of numbers.
* `separator_not_mem_encode` : the written form holds none of the separators of source maps.
-/

namespace ScriptTidy.Vlq

/-! ## Digits -/

theorem nodup_alphabet : alphabet.Nodup := by decide +kernel

theorem digit_eq_getElem {n : Nat} (h : n < alphabet.length) : digit n = alphabet[n] := by
  rw [digit, List.getD_eq_getElem?_getD, List.getElem?_eq_getElem h]
  rfl

/-- No character of the alphabet stands for two digits. -/
theorem digitValue?_digit {n : Nat} (h : n < 64) : digitValue? (digit n) = some n := by
  have hlen : n < alphabet.length := h
  have hidx : alphabet.idxOf (digit n) = n := by
    rw [digit_eq_getElem hlen]
    exact nodup_alphabet.idxOf_getElem n hlen
  unfold digitValue?
  dsimp only
  rw [hidx, if_pos hlen]

theorem digit_mem_alphabet {n : Nat} (h : n < 64) : digit n ∈ alphabet := by
  have hlen : n < alphabet.length := h
  rw [digit_eq_getElem hlen]
  exact List.getElem_mem hlen

/-! ## Numbers -/

theorem decodeNat?_encodeNat (n : Nat) (rest : Bytes) :
    decodeNat? (encodeNat n ++ rest) = some (n, rest) := by
  induction n using Nat.strongRecOn with
  | ind n ih =>
    rw [encodeNat]
    split
    next hlast =>
      rw [List.singleton_append, decodeNat?, digitValue?_digit (by omega)]
      exact if_pos hlast
    next hmore =>
      have hdigit : n % 32 + 32 < 64 := by omega
      rw [List.cons_append, decodeNat?, digitValue?_digit hdigit]
      dsimp only
      rw [if_neg (by omega), ih (n / 32) (by omega)]
      -- the low group and the rest make up the number
      have hsum : n % 32 + 32 - 32 + 32 * (n / 32) = n := by omega
      dsimp only
      rw [hsum]

theorem unfold_fold {v : Int} (h : v.natAbs < 2 ^ 63) : unfold (fold v) = v := by
  unfold fold unfold
  by_cases hneg : v < 0
  · have hfits : (2 * v.natAbs + 1) % wordSpan = 2 * v.natAbs + 1 :=
      Nat.mod_eq_of_lt (show 2 * v.natAbs + 1 < 2 ^ 64 by omega)
    rw [if_pos hneg, hfits, if_pos (by omega)]
    omega
  · have hfits : 2 * v.natAbs % wordSpan = 2 * v.natAbs :=
      Nat.mod_eq_of_lt (show 2 * v.natAbs < 2 ^ 64 by omega)
    rw [if_neg hneg, hfits, if_neg (by omega)]
    omega

/-- **A number is read back**, and what stands behind it is left. -/
theorem decode?_encode {v : Int} (h : v.natAbs < 2 ^ 63) (rest : Bytes) :
    decode? (encode v ++ rest) = some (v, rest) := by
  unfold decode? encode
  rw [decodeNat?_encodeNat]
  dsimp only
  rw [unfold_fold h]

theorem mem_alphabet_of_mem_encodeNat (n : Nat) : ∀ b ∈ encodeNat n, b ∈ alphabet := by
  induction n using Nat.strongRecOn with
  | ind n ih =>
    intro b hb
    rw [encodeNat] at hb
    split at hb
    next hlast =>
      rw [List.mem_singleton.mp hb]
      exact digit_mem_alphabet (by omega)
    next hmore =>
      rcases List.mem_cons.mp hb with rfl | hb
      · exact digit_mem_alphabet (by omega)
      · exact ih (n / 32) (by omega) b hb

theorem separator_not_mem_encode (v : Int) : 0x2C ∉ encode v ∧ 0x3B ∉ encode v := by
  have hcomma : (0x2C : UInt8) ∉ alphabet := by decide +kernel
  have hsemicolon : (0x3B : UInt8) ∉ alphabet := by decide +kernel
  exact ⟨fun h => hcomma (mem_alphabet_of_mem_encodeNat _ _ h),
    fun h => hsemicolon (mem_alphabet_of_mem_encodeNat _ _ h)⟩

theorem encode_ne_nil (v : Int) : encode v ≠ [] := by
  unfold encode
  rw [encodeNat]
  split
  · exact List.cons_ne_nil _ _
  · exact List.cons_ne_nil _ _

/-! ## Lists of numbers -/

/-- All numbers of a text; nothing if it holds anything else. -/
def fields? (text : Bytes) : Option (List Int) :=
  if text = [] then some []
  else match h : decodeNat? text with
    | none => none
    | some (n, rest) =>
      have : rest.length < text.length := decodeNat?_length_lt h
      (fields? rest).map (unfold n :: ·)
termination_by text.length

theorem fields?_of_decode? {text rest : Bytes} {v : Int} (h : decode? text = some (v, rest)) :
    fields? text = (fields? rest).map (v :: ·) := by
  have hne : text ≠ [] := by
    rintro rfl
    cases h
  unfold decode? at h
  rw [fields?, if_neg hne]
  split
  next hnone =>
    rw [hnone] at h
    cases h
  next n r hsome =>
    rw [hsome] at h
    cases h
    rfl

/-- **Numbers written one after the other are told apart.** -/
theorem fields?_encode {values : List Int} (h : ∀ v ∈ values, v.natAbs < 2 ^ 63) :
    fields? (values.flatMap encode) = some values := by
  induction values with
  | nil =>
    rw [fields?]
    rfl
  | cons v values ih =>
    have hrest := ih fun w hw => h w (List.mem_cons_of_mem v hw)
    have hread := decode?_encode (h v List.mem_cons_self) (values.flatMap encode)
    rw [List.flatMap_cons, fields?_of_decode? hread, hrest]
    rfl

end ScriptTidy.Vlq
