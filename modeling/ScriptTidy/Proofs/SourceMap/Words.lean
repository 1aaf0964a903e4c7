import ScriptTidy.Proofs.SourceMap.RoundTrip

/-!
# Numbers of source maps in 64-bit words

The digits of a number are written by a loop over a signed word. The sign goes to the lowest bit,
which leaves 62 bits for the rest: a number that needs more turns into a negative word, and an
arithmetic shift never brings that down to zero. Here it is shown which numbers the loop ends for
and that what it writes for them is `Vlq.encode`, and that the numbers of a source map are among
them if its places are.

* `Vlq.loop_ends_iff` : for which words the loop ends.
* `Vlq.loop_encode` : what it writes.
* `Vlq.ends_iff`, `SourceMap.not_ends_iff` : the tests for an end, of a number and of a map.
* `fields_piecesFrom` : the numbers that are written for a list of mappings.
-/

namespace ScriptTidy

/-! ## The loop -/

namespace Vlq

/-- A negative word stays negative. -/
theorem Loop.nonneg {w : Int} {bytes : Bytes} (h : Loop w bytes) : 0 ≤ w := by
  induction h with
  | last h => omega
  | more h _ ih => omega

theorem loop_encodeNat (n : Nat) : Loop n (encodeNat n) := by
  induction n using Nat.strongRecOn with
  | ind n ih =>
    have hdigit : ((n : Int) % 32).toNat = n % 32 := by omega
    rw [encodeNat]
    split
    next hlast =>
      have hloop := Loop.last (w := n) (by omega)
      rwa [hdigit, Nat.mod_eq_of_lt hlast] at hloop
    next hmore =>
      have hrest : (n : Int) / 32 = (n / 32 : Nat) := by omega
      have hloop := Loop.more (w := n) (by omega) (hrest ▸ ih (n / 32) (by omega))
      rwa [hdigit, if_pos (by omega)] at hloop

theorem wrap64_mul_wrap64 (m n : Int) : wrap64 (m * wrap64 n) = wrap64 (m * n) :=
  Int.mul_bmod_bmod ..

/-- A word that is not negative is the number with its sign in the lowest bit. -/
theorem shifted_eq_fold {v : Int} (h : 0 ≤ shifted v) : shifted v = (fold v : Nat) := by
  have hspan : wordSpan = 2 ^ 64 := rfl
  have hword : (wordSpan : Int) = 2 ^ 64 := rfl
  unfold shifted fold at *
  split at h
  next hneg =>
    rw [if_pos hneg, if_pos hneg]
    rw [wrap64_mul_wrap64, wrap64, Int.bmod_def, hword] at h ⊢
    rw [hspan]
    omega
  next hpos =>
    rw [if_neg hpos, if_neg hpos]
    rw [wrap64, Int.bmod_def, hword] at h ⊢
    rw [hspan]
    omega

/-- A number turns into a negative word if it has more than 62 bits. The lowest word has lost all
its bits to the shift. -/
theorem zero_le_shifted_iff {v : Int} (hv : -2 ^ 63 ≤ v ∧ v < 2 ^ 63) :
    0 ≤ shifted v ↔ (-2 ^ 62 < v ∧ v < 2 ^ 62) ∨ v = -2 ^ 63 := by
  have hword : (wordSpan : Int) = 2 ^ 64 := rfl
  unfold shifted
  split
  next hneg =>
    rw [wrap64_mul_wrap64, wrap64, Int.bmod_def, hword]
    omega
  next hpos =>
    rw [wrap64, Int.bmod_def, hword]
    omega

/-- What the loop writes when it ends. -/
theorem loop_of_ends {v : Int} (h : ends v = true) : Loop (shifted v) (encode v) := by
  rw [shifted_eq_fold (of_decide_eq_true h)]
  exact loop_encodeNat _

/-- **The test for an end is exact.** -/
theorem ends_iff {v : Int} : ends v = true ↔ ∃ bytes, Loop (shifted v) bytes :=
  ⟨fun h => ⟨_, loop_of_ends h⟩, fun ⟨_, hloop⟩ => decide_eq_true hloop.nonneg⟩

/-- **The loop ends exactly for the numbers with at most 62 bits**, apart from the lowest word. -/
theorem loop_ends_iff {v : Int} (hv : -2 ^ 63 ≤ v ∧ v < 2 ^ 63) :
    (∃ bytes, Loop (shifted v) bytes) ↔ (-2 ^ 62 < v ∧ v < 2 ^ 62) ∨ v = -2 ^ 63 := by
  rw [← ends_iff, ends, decide_eq_true_iff, zero_le_shifted_iff hv]

/-- **The loop writes a number with at most 62 bits as it is to be written.** -/
theorem loop_encode {v : Int} (h : -2 ^ 62 < v ∧ v < 2 ^ 62) : Loop (shifted v) (encode v) :=
  loop_of_ends (decide_eq_true ((zero_le_shifted_iff (by omega)).mpr (.inl h)))

end Vlq

/-! ## The numbers of a map -/

namespace SourceMap

variable {s : SourceMap}

/-- Whether the map has a number that the loop never ends for. -/
def NeverWritten (s : SourceMap) : Prop :=
  ∃ values, .fields values ∈ s.pieces ∧ ∃ v ∈ values, ∀ bytes, ¬ Vlq.Loop (Vlq.shifted v) bytes

/-- What it takes for a map to be written: the loop ends for all its numbers. -/
theorem ends_eq_true_iff :
    s.ends = true ↔ ∀ values, .fields values ∈ s.pieces → ∀ v ∈ values, Vlq.ends v = true := by
  rw [ends, List.all_eq_true]
  constructor
  · intro h values hvalues v hv
    exact List.all_eq_true.mp (h _ hvalues) v hv
  · intro h piece hpiece
    cases piece with
    | fields values => exact List.all_eq_true.mpr (h values hpiece)
    | lineEnd => rfl
    | comma => rfl

/-- **A map is not written because of a number.** -/
theorem not_ends_iff : s.ends = false ↔ s.NeverWritten := by
  rw [← Bool.not_eq_true, ends_eq_true_iff, NeverWritten]
  simp only [Vlq.ends_iff, not_forall, not_exists, exists_prop]

end SourceMap

section Pieces

variable {limit : Int} {s : SourceMap} {st : MapState} {m : Mapping}

/-- What is written for a mapping are the numbers for it, from a state in range, and the state
behind it is in range. -/
theorem fields_piecesOf (hst : st.Bounded limit) (hm : m.Fits) (hs : s.TablesWithin limit) :
    (s.piecesOf st m).2.Bounded limit
      ∧ ∀ values, .fields values ∈ (s.piecesOf st m).1 →
        ∃ st' : MapState, st'.Bounded limit ∧ values = (s.fieldsOf st' m).1 := by
  unfold SourceMap.piecesOf
  split
  next hline =>
    -- on a new line columns count from zero again
    have hdown : MapState.Bounded limit { st with
        generatedColumn := 0
        generatedLine := if st.generatedLine < m.generated.line then m.generated.line
          else st.generatedLine } :=
      { hst with column := (by decide : (0 : Int) ≤ 0 ∧ (0 : Int) < 2 ^ 62) }
    refine ⟨bounded_fieldsOf hdown hm hs, fun values hv => ⟨_, hdown, ?_⟩⟩
    rcases List.mem_append.mp hv with hv | hv
    · cases List.eq_of_mem_replicate hv
    · exact MapPiece.fields.inj (List.mem_singleton.mp hv)
  next =>
    split
    next => exact ⟨hst, fun values hv => nomatch hv⟩
    next =>
      refine ⟨bounded_fieldsOf hst hm hs, fun values hv => ⟨st, hst, ?_⟩⟩
      rcases List.mem_append.mp hv with hv | hv
      · split at hv
        · cases List.mem_singleton.mp hv
        · cases hv
      · exact MapPiece.fields.inj (List.mem_singleton.mp hv)

/-- **Places in range are written by numbers in range.** -/
theorem fields_piecesFrom (hs : s.TablesWithin limit) (ms : List Mapping) :
    ∀ {st : MapState}, st.Bounded limit → (∀ m ∈ ms, m.Fits) →
      ∀ values, .fields values ∈ s.piecesFrom st ms →
        ∀ v ∈ values, (v.natAbs : Int) < max (2 ^ 62) limit := by
  induction ms with
  | nil =>
    intro st _ _ values hv
    cases hv
  | cons m ms ih =>
    intro st hst hms values hv v
    have hm := hms m List.mem_cons_self
    obtain ⟨hnext, hfields⟩ := fields_piecesOf hst hm hs
    rcases List.mem_append.mp hv with hv | hv
    · obtain ⟨st', hst', rfl⟩ := hfields values hv
      exact natAbs_fieldsOf hst' hm hs v
    · exact ih hnext (fun k hk => hms k (List.mem_cons_of_mem m hk)) values hv v

end Pieces

end ScriptTidy
