import Mathlib.Data.List.GetD
import Mathlib.Data.List.Nodup
import ScriptTidy.Status.Traffic

/-!
# Counts of a breakdown

A breakdown keeps categories and counts in two lists, and a category is counted by its index. As
long as no category stands there twice and the lists are equally long, an index and a name say the
same.

* `Breakdown.count_raise`, `Breakdown.count_add` : the counts after the two ways to count a hit.
* `Breakdown.Lawful` : what both of them keep.
-/

namespace ScriptTidy.Status.Breakdown

variable {b : Breakdown} {name : Bytes} {i : Nat}

/-- Each category stands once, and has a count. -/
structure Lawful (b : Breakdown) : Prop where
  nodup : b.categories.Nodup
  lengths : b.categories.length = b.counts.length

theorem length_raiseAt (i : Nat) (ns : List Nat) : (raiseAt i ns).length = ns.length := by
  induction ns generalizing i with
  | nil => cases i <;> rfl
  | cons n ns ih =>
    cases i with
    | zero => rfl
    | succ i => exact congrArg (· + 1) (ih i)

theorem getD_raiseAt {ns : List Nat} (hi : i < ns.length) (j : Nat) :
    (raiseAt i ns).getD j 0 = ns.getD j 0 + if j = i then 1 else 0 := by
  induction ns generalizing i j with
  | nil => cases hi
  | cons n ns ih =>
    cases i with
    | zero => cases j <;> simp [raiseAt]
    | succ i =>
      cases j with
      | zero => simp [raiseAt]
      | succ j => simpa [raiseAt] using ih (Nat.lt_of_succ_lt_succ hi) j

/-! ## Counts by index -/

theorem count_of_getElem? (hb : b.categories.Nodup) (h : b.categories[i]? = some name) :
    b.count name = b.counts.getD i 0 := by
  obtain ⟨hi, hname⟩ := List.getElem?_eq_some_iff.mp h
  have hfind : b.categories.findIdx? (· = name) = some i := by
    rw [List.findIdx?_eq_some_iff_getElem]
    refine ⟨hi, decide_eq_true hname, fun j hj hname' => ?_⟩
    have hij : b.categories[j] = b.categories[i] :=
      (of_decide_eq_true hname').trans hname.symm
    exact Nat.ne_of_lt hj (hb.getElem_inj_iff.mp hij)
  unfold count
  rw [hfind]

theorem count_of_not_mem (h : name ∉ b.categories) : b.count name = 0 := by
  have hfind : b.categories.findIdx? (· = name) = none := by
    rw [List.findIdx?_eq_none_iff]
    intro c hc
    exact decide_eq_false fun hname => h (hname ▸ hc)
  unfold count
  rw [hfind]

/-! ## Counting a hit -/

theorem Lawful.raise (hb : b.Lawful) (i : Nat) : (b.raise i).Lawful :=
  ⟨hb.nodup, hb.lengths.trans (length_raiseAt i b.counts).symm⟩

/-- **Raising the count at the index of a category** counts a hit of this category. -/
theorem count_raise (hb : b.Lawful) (h : b.categories[i]? = some name) (x : Bytes) :
    (b.raise i).count x = b.count x + if name = x then 1 else 0 := by
  have hi : i < b.counts.length := hb.lengths ▸ (List.getElem?_eq_some_iff.mp h).1
  by_cases hx : x ∈ b.categories
  · obtain ⟨j, hj⟩ := List.mem_iff_getElem?.mp hx
    have hji : j = i ↔ name = x := by
      refine ⟨fun hji => Option.some_inj.mp (h.symm.trans (hji ▸ hj)), fun hname => ?_⟩
      exact (List.getElem?_inj (List.getElem?_eq_some_iff.mp hj).1 hb.nodup).mp
        (hj.trans (hname ▸ h.symm))
    rw [count_of_getElem? (b := b.raise i) hb.nodup hj, count_of_getElem? hb.nodup hj]
    show (raiseAt i b.counts).getD j 0 = _
    rw [getD_raiseAt hi]
    simp only [hji]
  · have hne : name ≠ x := fun hname => hx (hname ▸ List.mem_of_getElem? h)
    rw [count_of_not_mem (b := b.raise i) hx, count_of_not_mem hx, if_neg hne]

theorem Lawful.add (hb : b.Lawful) (h : name ∉ b.categories) : (b.add name).Lawful where
  nodup := List.nodup_append.mpr ⟨hb.nodup, List.nodup_singleton _, fun c hc d hd hcd =>
    h (List.mem_singleton.mp hd ▸ hcd ▸ hc)⟩
  lengths := by
    show (b.categories ++ [name]).length = (b.counts ++ [1]).length
    rw [List.length_append, List.length_append, hb.lengths]
    rfl

/-- **Adding a category** counts its first hit. -/
theorem count_add (hb : b.Lawful) (h : name ∉ b.categories) (x : Bytes) :
    (b.add name).count x = b.count x + if name = x then 1 else 0 := by
  have hnodup := (hb.add h).nodup
  by_cases hx : x ∈ b.categories
  · obtain ⟨j, hj⟩ := List.mem_iff_getElem?.mp hx
    have hlt := (List.getElem?_eq_some_iff.mp hj).1
    have hj' : (b.add name).categories[j]? = some x :=
      (List.getElem?_append_left hlt).trans hj
    have hne : name ≠ x := fun hname => h (hname ▸ hx)
    rw [count_of_getElem? hnodup hj', count_of_getElem? hb.nodup hj, if_neg hne]
    exact List.getD_append _ _ _ _ (hb.lengths ▸ hlt)
  · -- the name that is added is the only new one, and stands last
    rw [count_of_not_mem hx, Nat.zero_add]
    by_cases hname : name = x
    · subst hname
      have hlast : (b.add name).categories[b.categories.length]? = some name :=
        List.getElem?_concat_length
      rw [count_of_getElem? hnodup hlast, if_pos rfl, hb.lengths]
      show (b.counts ++ [1]).getD b.counts.length 0 = 1
      rw [List.getD_append_right _ _ _ _ (Nat.le_refl _), Nat.sub_self]
      rfl
    · rw [if_neg hname]
      refine count_of_not_mem fun hmem => ?_
      rcases List.mem_append.mp hmem with hmem | hmem
      · exact hx hmem
      · exact hname (List.mem_singleton.mp hmem).symm

end ScriptTidy.Status.Breakdown
