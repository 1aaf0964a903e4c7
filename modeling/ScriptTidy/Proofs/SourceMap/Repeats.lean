import ScriptTidy.Proofs.SourceMap.RoundTrip

/-!
# Mappings that come in order

A source map sorts its mappings by generated place and leaves out those that equal the one before.
If the mappings come in order already, nothing is moved, and if equal ones are known, it is known
what is left out.

* `Successive` : a mapping behind another one that may be repeated.
* `sorted_addAll` : nothing is moved.
* `piecesFrom_filter` : the repeated mappings are left out, and a segment is written for each of the
  others.
-/

namespace ScriptTidy

/-- Whether the part is the numbers of a mapping. -/
def MapPiece.isSegment : MapPiece → Bool
  | fields _ => true
  | _ => false

/-- The mapping of `y` comes behind that of `x`. They have the same generated place exactly if `x`
is to be skipped, and then they are equal. -/
structure Mapping.Successive {α : Type} (skip : α → Bool) (x y : α × Mapping) : Prop where
  generated : x.2.generated.le y.2.generated = true
  same : x.2.generated = y.2.generated ↔ skip x.1 = true
  equal : skip x.1 = true → x.2 = y.2

theorem Place.line_le {p q : Place} (h : p.le q = true) : p.line ≤ q.line := by
  unfold Place.le at h
  simp only [Bool.or_eq_true, decide_eq_true_eq, Bool.and_eq_true, beq_iff_eq] at h
  omega

namespace SourceMap

open Mapping (Successive)

variable {s : SourceMap} {st : MapState} {m : Mapping} {ms : List Mapping}

/-! ## Order -/

theorem mappings_addAll (ms : List Mapping) : ∀ s : SourceMap,
    (s.addAll ms).mappings.toList = s.mappings.toList ++ ms := by
  induction ms with
  | nil => exact fun s => (List.append_nil _).symm
  | cons m ms ih =>
    intro s
    show ((s.add m).addAll ms).mappings.toList = _
    have hadd : (s.add m).mappings.toList = s.mappings.toList ++ [m] :=
      mappings_call (c := .mapping m)
    rw [ih, hadd, List.append_assoc, List.singleton_append]

/-- **Mappings that are added in order stay in order.** -/
theorem sorted_addAll (hs : s.mappings = #[])
    (hms : ms.Pairwise fun a b => a.generated.le b.generated) : (s.addAll ms).sorted = ms := by
  unfold sorted
  rw [mappings_addAll, hs]
  exact List.mergeSort_of_pairwise hms

/-! ## Repeats -/

theorem fieldsOf_state : (s.fieldsOf st m).2.previous = some m
    ∧ (s.fieldsOf st m).2.generatedLine = st.generatedLine := by
  unfold fieldsOf
  dsimp only
  split
  · split
    · exact ⟨rfl, rfl⟩
    · exact ⟨rfl, rfl⟩
  · exact ⟨rfl, rfl⟩

/-- Behind a mapping that is not behind its line. -/
theorem piecesOf_state (h : st.generatedLine ≤ m.generated.line) :
    (s.piecesOf st m).2.previous = some m
      ∧ (s.piecesOf st m).2.generatedLine = m.generated.line := by
  unfold piecesOf
  by_cases hline : m.generated.line ≠ st.generatedLine
  · have hlt : st.generatedLine < m.generated.line := by omega
    rw [if_pos hline]
    dsimp only
    rw [if_pos hlt]
    exact fieldsOf_state
  · rw [if_neg hline]
    have heq : st.generatedLine = m.generated.line := (not_not.mp hline).symm
    by_cases hprevious : st.previous = some m
    · rw [if_pos hprevious]
      exact ⟨hprevious, heq⟩
    · rw [if_neg hprevious]
      obtain ⟨hm, hsame⟩ : (s.fieldsOf st m).2.previous = some m ∧ _ := fieldsOf_state
      exact ⟨hm, hsame.trans heq⟩

/-- A mapping that was just written is not written again. -/
theorem piecesOf_repeat (hprevious : st.previous = some m)
    (hline : st.generatedLine = m.generated.line) : s.piecesOf st m = ([], st) := by
  unfold piecesOf
  rw [if_neg (not_not.mpr hline.symm), if_pos hprevious]

theorem piecesFrom_cons (s : SourceMap) (st : MapState) (m : Mapping) (ms : List Mapping) :
    s.piecesFrom st (m :: ms)
      = (s.piecesOf st m).1 ++ s.piecesFrom (s.piecesOf st m).2 ms := rfl

theorem piecesFrom_repeat (h : st.generatedLine ≤ m.generated.line) (ms : List Mapping) :
    s.piecesFrom st (m :: m :: ms) = s.piecesFrom st (m :: ms) := by
  obtain ⟨hprevious, hline⟩ : (s.piecesOf st m).2.previous = some m ∧ _ := piecesOf_state h
  rw [piecesFrom_cons, piecesFrom_cons, piecesFrom_cons, piecesOf_repeat hprevious hline,
    List.nil_append]

/-- Any other mapping is written once. -/
theorem countP_piecesOf (h : st.previous ≠ some m) :
    (s.piecesOf st m).1.countP MapPiece.isSegment = 1 := by
  unfold piecesOf
  by_cases hline : m.generated.line ≠ st.generatedLine
  · rw [if_pos hline]
    dsimp only
    rw [List.countP_append, List.countP_replicate]
    rfl
  · rw [if_neg hline, if_neg h]
    dsimp only
    rw [List.countP_append]
    split <;> rfl

/-- **What is written for mappings in order**: those that are skipped are left out, and nothing
else. -/
theorem piecesFrom_filter {α : Type} {skip : α → Bool} {xs : List (α × Mapping)}
    (hxs : xs.IsChain (Successive skip)) (hlast : ∀ x ∈ xs.getLast?, skip x.1 = false) :
    ∀ {st : MapState}, (∀ x ∈ xs.head?, st.generatedLine ≤ x.2.generated.line) →
      (∀ x ∈ xs.head?, st.previous ≠ some x.2) →
      s.piecesFrom st (xs.map (·.2)) = s.piecesFrom st ((xs.filter fun x => !skip x.1).map (·.2))
        ∧ (s.piecesFrom st (xs.map (·.2))).countP MapPiece.isSegment
          + xs.countP (fun x => skip x.1) = xs.length := by
  induction xs with
  | nil => exact fun _ _ => ⟨rfl, rfl⟩
  | cons x rest ih =>
    intro st hline hprevious
    have hx := hline x rfl
    obtain ⟨hahead, hrest⟩ := List.isChain_cons.mp hxs
    have hlast' : ∀ y ∈ rest.getLast?, skip y.1 = false := by
      intro y hy
      cases rest with
      | nil => cases hy
      | cons z rest => exact hlast y (by rwa [List.getLast?_cons_cons])
    cases hskip : skip x.1 with
    | true =>
      -- the mapping behind it is the same, and is written in its place
      cases rest with
      | nil => exact absurd (hlast x rfl) (by rw [hskip]; exact Bool.noConfusion)
      | cons y rest =>
        have heq : x.2 = y.2 := (hahead y rfl).equal hskip
        have hstart : ∀ z ∈ (y :: rest).head?, st.generatedLine ≤ z.2.generated.line := by
          rintro z ⟨⟩
          rwa [← heq]
        have hnew : ∀ z ∈ (y :: rest).head?, st.previous ≠ some z.2 := by
          rintro z ⟨⟩
          rw [← heq]
          exact hprevious x rfl
        obtain ⟨hpieces, hcount⟩ := ih hrest hlast' hstart hnew
        have hrepeat : s.piecesFrom st ((x :: y :: rest).map (·.2))
            = s.piecesFrom st ((y :: rest).map (·.2)) := by
          rw [List.map_cons, List.map_cons, heq]
          exact piecesFrom_repeat (heq ▸ hx) _
        rw [hrepeat, List.filter_cons_of_neg (by rw [hskip]; exact Bool.noConfusion),
          List.countP_cons_of_pos (p := fun x : α × Mapping => skip x.1) hskip, List.length_cons]
        exact ⟨hpieces, by omega⟩
    | false =>
      obtain ⟨hst, hstline⟩ : (s.piecesOf st x.2).2.previous = some x.2 ∧ _ := piecesOf_state hx
      have hstart : ∀ y ∈ rest.head?,
          (s.piecesOf st x.2).2.generatedLine ≤ y.2.generated.line := by
        intro y hy
        have hle := Place.line_le (hahead y hy).generated
        omega
      have hnew : ∀ y ∈ rest.head?, (s.piecesOf st x.2).2.previous ≠ some y.2 := by
        intro y hy heq
        rw [hst] at heq
        have hsame := (hahead y hy).same.mp (congrArg Mapping.generated (Option.some.inj heq))
        rw [hskip] at hsame
        cases hsame
      obtain ⟨hpieces, hcount⟩ := ih hrest hlast' hstart hnew
      have hone := countP_piecesOf (s := s) (hprevious x rfl)
      rw [List.map_cons, piecesFrom_cons, List.filter_cons_of_pos (by rw [hskip]; rfl),
        List.map_cons, piecesFrom_cons, ← hpieces, List.countP_append, List.length_cons,
        List.countP_cons_of_neg (p := fun x : α × Mapping => skip x.1) (Bool.eq_false_iff.mp hskip)]
      exact ⟨rfl, by omega⟩

end SourceMap

end ScriptTidy
