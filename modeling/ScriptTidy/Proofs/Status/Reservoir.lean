import Mathlib.Data.List.Induction
import ScriptTidy.Status.Reservoir

/-!
# What a reservoir holds and reports

The values are recorded one after the other, each with a draw that is made for it. Nothing is
assumed of the draws, so that what is said here holds for every outcome of them. A full reservoir
gives up a sample for each value that it takes in, and so no value is ever in it more often than it
was recorded.

* `Sampled.record` : what one recording preserves.
* `sampled_recordAll` : what any recordings lead to.
* `reported_values` : the values at the percentiles are samples in order.
-/

namespace ScriptTidy.Status.Reservoir

/-- The reservoir after recordings, each a draw and a value. -/
def recordAll (recordings : List (Nat × Int)) : Reservoir :=
  recordings.foldl (fun r recording => r.record recording.1 recording.2) {}

/-! ## Recording -/

/-- The reservoir after these values were recorded. -/
structure Sampled (recorded : List Int) (r : Reservoir) : Prop where
  count : r.count = recorded.length
  size : r.samples.size = min recorded.length capacity
  /-- A value is sampled no more often than it was recorded. -/
  count_le : ∀ v, r.samples.toList.count v ≤ recorded.count v
  /-- Every value is kept while there is room. -/
  all : recorded.length ≤ capacity → r.samples.toList = recorded

section Record

variable {r : Reservoir} {recorded : List Int}

/-- What a recording can do: the value comes behind the samples while there is room, then it takes
the place of one of them or is passed over. **A sample that is replaced is there.** -/
theorem record_cases (r : Reservoir) (draw : Nat) (v : Int) :
    (r.samples.size < capacity ∧ r.record draw v = ⟨r.count + 1, r.samples.push v⟩)
      ∨ (capacity ≤ r.samples.size ∧ draw < capacity ∧ ∃ hlt : draw < r.samples.size,
        r.record draw v = ⟨r.count + 1, r.samples.set draw v hlt⟩)
      ∨ (capacity ≤ r.samples.size ∧ capacity ≤ draw
        ∧ r.record draw v = ⟨r.count + 1, r.samples⟩) := by
  unfold record
  by_cases hroom : r.samples.size < capacity
  · exact .inl ⟨hroom, by rw [if_pos hroom]⟩
  have hfull := Nat.not_lt.mp hroom
  rw [if_neg hroom]
  by_cases hdraw : draw < capacity
  · have hlt := Nat.lt_of_lt_of_le hdraw hfull
    exact .inr (.inl ⟨hfull, hdraw, hlt, by rw [if_pos hdraw, Array.setIfInBounds, dif_pos hlt]⟩)
  · exact .inr (.inr ⟨hfull, Nat.not_lt.mp hdraw, by rw [if_neg hdraw]⟩)

theorem count_concat (recorded : List Int) (v x : Int) :
    (recorded ++ [v]).count x = recorded.count x + if v == x then 1 else 0 := by
  rw [List.count_append, List.count_singleton]

/-- The value that comes in takes the place of one that goes out. -/
theorem count_set_le (samples : List Int) {i : Nat} (hi : i < samples.length) (v x : Int) :
    (samples.set i v).count x ≤ samples.count x + if v == x then 1 else 0 := by
  rw [List.count_set hi]
  exact Nat.add_le_add_right (Nat.sub_le _ _) _

theorem Sampled.push (h : Sampled recorded r) (hroom : r.samples.size < capacity) (v : Int) :
    Sampled (recorded ++ [v]) ⟨r.count + 1, r.samples.push v⟩ where
  count := by
    rw [List.length_append]
    exact congrArg (· + 1) h.count
  size := by
    have hsize := h.size
    rw [Array.size_push, List.length_append, List.length_singleton]
    omega
  count_le x := by
    rw [Array.toList_push, count_concat, count_concat]
    exact Nat.add_le_add_right (h.count_le x) _
  all _ := by
    have hsize := h.size
    rw [Array.toList_push, h.all (by omega)]

/-- A full reservoir stays full, and may take the new value in once. -/
theorem Sampled.full (h : Sampled recorded r) (hfull : capacity ≤ r.samples.size) {v : Int}
    {samples : Array Int} (hsame : samples.size = r.samples.size)
    (hle : ∀ x, samples.toList.count x ≤ r.samples.toList.count x + if v == x then 1 else 0) :
    Sampled (recorded ++ [v]) ⟨r.count + 1, samples⟩ where
  count := by
    rw [List.length_append]
    exact congrArg (· + 1) h.count
  size := by
    have hsize := h.size
    rw [hsame, List.length_append, List.length_singleton]
    omega
  count_le x := by
    rw [count_concat]
    exact Nat.le_trans (hle x) (Nat.add_le_add_right (h.count_le x) _)
  all hall := by
    -- more values were recorded than there is room for
    have hsize := h.size
    rw [List.length_append, List.length_singleton] at hall
    omega

/-- **A recording keeps the reservoir sampled.** -/
theorem Sampled.record (h : Sampled recorded r) (draw : Nat) (v : Int) :
    Sampled (recorded ++ [v]) (r.record draw v) := by
  obtain ⟨hroom, heq⟩ | ⟨hfull, -, hlt, heq⟩ | ⟨hfull, -, heq⟩ := record_cases r draw v
  · rw [heq]
    exact h.push hroom v
  · rw [heq]
    refine h.full hfull (Array.size_set hlt) fun x => ?_
    rw [Array.toList_set]
    exact count_set_le _ (by rwa [Array.length_toList]) v x
  · rw [heq]
    exact h.full hfull rfl fun x => Nat.le_add_right _ _

/-- **Any recordings lead to a sampled reservoir**, whatever is drawn. -/
theorem sampled_recordAll (recordings : List (Nat × Int)) :
    Sampled (recordings.map (·.2)) (recordAll recordings) := by
  induction recordings using List.reverseRecOn with
  | nil => exact ⟨rfl, rfl, fun _ => Nat.le_refl _, fun _ => rfl⟩
  | append_singleton recordings recording ih =>
    unfold recordAll at ih ⊢
    rw [List.foldl_append, List.map_append]
    exact ih.record recording.1 recording.2

end Record

/-! ## Reporting -/

/-- The values that a reservoir reports. -/
structure Reported (r : Reservoir) : Prop where
  length : r.values.length = 5
  ordered : r.values.Pairwise (· ≤ ·)
  /-- Without samples all are zero. -/
  empty : r.samples.size = 0 → r.values = [0, 0, 0, 0, 0]
  mem : r.samples.size ≠ 0 → ∀ v ∈ r.values, v ∈ r.samples
  /-- They are found in any ordered list of the samples, each at the whole part of its percentage
  of their number. -/
  place : ∀ ordered : List Int, ordered.Perm r.samples.toList → ordered.Pairwise (· ≤ ·) →
    r.values = percentiles.map fun p => ordered.getD (ordered.length * p / 100) 0
  /-- They depend on nothing but which samples there are and how often. -/
  perm : ∀ s : Reservoir, s.samples.toList.Perm r.samples.toList → s.values = r.values

section Values

/-- A percentage below the whole leads to one of the samples, if there are any. -/
theorem index_lt {k p : Nat} (hk : 0 < k) (hp : p < 100) : k * p / 100 < k := by
  have hlt : k * p < k * 100 := Nat.mul_lt_mul_of_pos_left hp hk
  omega

/-- So no place has to be moved back among the samples. -/
theorem place_eq {k p : Nat} (hp : p < 100) : place k p = k * p / 100 := by
  unfold place
  rcases Nat.eq_zero_or_pos k with rfl | hk
  · rw [Nat.zero_mul, Nat.zero_div, Nat.zero_min]
  · have hlt := index_lt hk hp
    omega

theorem lt_of_mem_percentiles : ∀ p ∈ percentiles, p < 100 := by decide

/-- In an ordered list a later place has the greater value. -/
theorem getD_le_getD {ordered : List Int} (h : ordered.Pairwise (· ≤ ·)) {i j : Nat} (hij : i ≤ j)
    (hj : j < ordered.length) : ordered.getD i 0 ≤ ordered.getD j 0 := by
  have hi : i < ordered.length := Nat.lt_of_le_of_lt hij hj
  rw [← List.getElem_eq_getD (h := hi) 0, ← List.getElem_eq_getD (h := hj) 0]
  rcases Nat.lt_or_eq_of_le hij with hlt | rfl
  · exact List.pairwise_iff_getElem.mp h i j hi hj hlt
  · exact Int.le_refl _

variable (r : Reservoir)

theorem sorted_perm : r.sorted.Perm r.samples.toList := List.mergeSort_perm _ _

theorem length_sorted : r.sorted.length = r.samples.size :=
  r.sorted_perm.length_eq.trans Array.length_toList

theorem sorted_pairwise : r.sorted.Pairwise (· ≤ ·) := by
  have htrans : ∀ a b c : Int, decide (a ≤ b) = true → decide (b ≤ c) = true →
      decide (a ≤ c) = true := by
    simp only [decide_eq_true_eq]
    exact fun _ _ _ => Int.le_trans
  have htotal : ∀ a b : Int, (decide (a ≤ b) || decide (b ≤ a)) = true := by
    simp only [Bool.or_eq_true, decide_eq_true_eq]
    exact Int.le_total
  exact (List.pairwise_mergeSort htrans htotal _).imp of_decide_eq_true

/-- There is only one order of the samples. -/
theorem eq_sorted {ordered : List Int} (hperm : ordered.Perm r.samples.toList)
    (hordered : ordered.Pairwise (· ≤ ·)) : ordered = r.sorted :=
  List.Perm.eq_of_pairwise (fun _ _ _ _ => Int.le_antisymm) hordered r.sorted_pairwise
    (hperm.trans r.sorted_perm.symm)

theorem values_eq :
    r.values = percentiles.map fun p => r.sorted.getD (r.sorted.length * p / 100) 0 := by
  unfold values
  dsimp only
  refine List.map_congr_left fun p hp => ?_
  rw [place_eq (lt_of_mem_percentiles p hp)]

theorem values_of_empty (h : r.samples.size = 0) : r.values = [0, 0, 0, 0, 0] := by
  have hnil : r.sorted = [] := List.length_eq_zero_iff.mp (r.length_sorted.trans h)
  rw [values_eq, hnil]
  rfl

theorem mem_of_mem_values (h : r.samples.size ≠ 0) : ∀ v ∈ r.values, v ∈ r.samples := by
  intro v hv
  rw [values_eq] at hv
  obtain ⟨p, hp, rfl⟩ := List.mem_map.mp hv
  have hpos : 0 < r.sorted.length := by
    rw [length_sorted]
    exact Nat.pos_of_ne_zero h
  have hlt := index_lt hpos (lt_of_mem_percentiles p hp)
  rw [← List.getElem_eq_getD (h := hlt) 0]
  exact Array.mem_toList_iff.mp (r.sorted_perm.mem_iff.mp (List.getElem_mem hlt))

theorem values_pairwise : r.values.Pairwise (· ≤ ·) := by
  by_cases h : r.samples.size = 0
  · rw [r.values_of_empty h]
    decide
  · have hpos : 0 < r.sorted.length := by
      rw [length_sorted]
      exact Nat.pos_of_ne_zero h
    have hpercentiles : percentiles.Pairwise (· ≤ ·) := by decide
    rw [values_eq, List.pairwise_map]
    refine hpercentiles.imp_of_mem fun {p q} _ hq hpq => ?_
    exact getD_le_getD r.sorted_pairwise (Nat.div_le_div_right (Nat.mul_le_mul_left _ hpq))
      (index_lt hpos (lt_of_mem_percentiles q hq))

/-- **What is reported are samples in order**, of any reservoir. -/
theorem reported_values : Reported r where
  length := by
    rw [values_eq, List.length_map]
    rfl
  ordered := r.values_pairwise
  empty := r.values_of_empty
  mem := r.mem_of_mem_values
  place ordered hperm hordered := by
    rw [r.eq_sorted hperm hordered]
    exact r.values_eq
  perm s hperm := by
    rw [values_eq, values_eq, s.eq_sorted (r.sorted_perm.trans hperm.symm) r.sorted_pairwise]

end Values

/-- **What a reservoir holds and reports**, after any recordings and whatever is drawn. It has
counted all of them and holds as many as it can, none more often than it was recorded and all while
there is room. Whenever it replaces a sample, that sample is there. It reports five of its samples
in order, which depend on nothing but the samples it has; without samples these are zeros. -/
theorem recordAll_reported (recordings : List (Nat × Int)) :
    Sampled (recordings.map (·.2)) (recordAll recordings)
      ∧ (∀ draw v, capacity ≤ (recordAll recordings).samples.size → draw < capacity →
        ∃ hlt : draw < (recordAll recordings).samples.size,
          ((recordAll recordings).record draw v).samples =
            (recordAll recordings).samples.set draw v hlt)
      ∧ Reported (recordAll recordings) := by
  refine ⟨sampled_recordAll recordings, fun draw v hfull hdraw => ?_, reported_values _⟩
  obtain ⟨hroom, -⟩ | ⟨-, -, hlt, heq⟩ | ⟨-, hbeyond, -⟩ :=
    record_cases (recordAll recordings) draw v
  · exact absurd hroom (Nat.not_lt.mpr hfull)
  · exact ⟨hlt, congrArg samples heq⟩
  · exact absurd hdraw (Nat.not_lt.mpr hbeyond)

/-- With four samples the last three percentiles lead to the greatest. -/
example : (recordAll [(0, 40), (0, 10), (0, 30), (0, 20)]).values = [20, 30, 40, 40, 40] := by
  cbv

end ScriptTidy.Status.Reservoir
