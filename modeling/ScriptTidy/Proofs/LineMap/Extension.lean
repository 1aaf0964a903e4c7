import ScriptTidy.Proofs.LineMap.Lines
import ScriptTidy.Proofs.Scanner.Positions

/-!
# Lines and columns in a longer text

A script is a part of a document, and what follows it in the document can add bytes to its last
character and a line feed to its last line end. Neither moves the places before it.

* `takeWhile_startsFrom_append` : the starts of lines up to an offset.
* `lineColumn_append` : the line and the column of an offset.
-/

namespace ScriptTidy.LineMap

/-- The offset lies in a text that starts at `k`, or at its end if the text behind does not go on
with a line end there. -/
def LiesIn (k o : Nat) (text more : Bytes) : Prop :=
  o < k + text.length
    ∨ o = k + text.length ∧ (text.getLast? = some 0x0D → more.head? ≠ some 0x0A)

variable {k o : Nat} {text more : Bytes}

theorem LiesIn.le (h : LiesIn k o text more) : o ≤ k + text.length := by
  rcases h with h | ⟨h, -⟩
  · exact Nat.le_of_lt h
  · exact Nat.le_of_eq h

theorem LiesIn.tail {b : UInt8} (h : LiesIn k o (b :: text) more) :
    LiesIn (k + 1) o text more := by
  unfold LiesIn at h ⊢
  rw [List.length_cons] at h
  rcases h with h | ⟨h, hend⟩
  · exact .inl (by omega)
  · refine .inr ⟨by omega, fun hlast => hend ?_⟩
    cases text with
    | nil => cases hlast
    | cons c text => rwa [List.getLast?_cons_cons]

theorem LiesIn.prepend (h : LiesIn 0 o text more) (hne : text ≠ []) (done : Bytes) :
    LiesIn 0 (done.length + o) (done ++ text) more := by
  unfold LiesIn at h ⊢
  rw [List.length_append, List.getLast?_append_of_ne_nil _ hne]
  rcases h with h | ⟨h, hend⟩
  · exact .inl (by omega)
  · exact .inr ⟨by omega, hend⟩

/-! ## Starts of lines -/

/-- Lines end behind the start of the text. -/
theorem takeWhile_startsFrom_of_le (h : o ≤ k) (text : Bytes) :
    (startsFrom k text).takeWhile (fun x => decide (x ≤ o)) = [] := by
  have hlt := (List.pairwise_cons.mp (broken_startsFrom k text).pairwise).1
  have hnone : ∀ x ∈ ([] : List Nat), x ≤ o := fun x hx => by cases hx
  exact takeWhile_ends hnone fun x hx => Nat.lt_of_le_of_lt h (hlt x hx)

theorem takeWhile_cons_congr {a : Nat} {l l' : List Nat}
    (h : l.takeWhile (fun x => decide (x ≤ o)) = l'.takeWhile (fun x => decide (x ≤ o))) :
    (a :: l).takeWhile (fun x => decide (x ≤ o))
      = (a :: l').takeWhile (fun x => decide (x ≤ o)) := by
  rw [List.takeWhile_cons, List.takeWhile_cons, h]

/-- A carriage return at the end of the text, whatever follows. -/
theorem takeWhile_startsFrom_return (h : LiesIn k o [0x0D] more) :
    (startsFrom k (0x0D :: more)).takeWhile (fun x => decide (x ≤ o))
      = (startsFrom k [0x0D]).takeWhile (fun x => decide (x ≤ o)) := by
  by_cases hlf : ∃ s, more = 0x0A :: s
  · obtain ⟨s, rfl⟩ := hlf
    have hlt : o ≤ k := by
      rcases h with h | ⟨-, hend⟩
      · exact Nat.le_of_lt_succ h
      · exact absurd rfl (hend rfl)
    rw [takeWhile_startsFrom_of_le hlt, takeWhile_startsFrom_of_le hlt]
  · rw [startsFrom_cr fun s hs => hlf ⟨s, hs⟩, startsFrom_cr fun s hs => by cases hs]
    have hle : o ≤ k + 1 := h.le
    refine takeWhile_cons_congr ?_
    rw [takeWhile_startsFrom_of_le hle, takeWhile_startsFrom_of_le hle]

/-- A separator that is only complete behind the text ends behind it. -/
theorem takeWhile_startsFrom_separator {r s : Bytes} {d : UInt8} (hd : d = 0xA8 ∨ d = 0xA9)
    (hs : r ++ more = 0x80 :: d :: s) (hr : ∀ s, r ≠ 0x80 :: d :: s)
    (h : LiesIn k o (0xE2 :: r) more) :
    (startsFrom k (0xE2 :: (r ++ more))).takeWhile (fun x => decide (x ≤ o))
      = (startsFrom (k + 1) r).takeWhile (fun x => decide (x ≤ o)) := by
  -- the separator is cut, so that at most its second byte is in the text
  have hshort : r = [] ∨ r = [0x80] := by
    match r, hs with
    | [], _ => exact .inl rfl
    | [x], hs => exact .inr (by rw [(List.cons.inj hs).1])
    | x :: y :: r, hs =>
      have hx : x = 0x80 := (List.cons.inj hs).1
      have hy : y = d := (List.cons.inj (List.cons.inj hs).2).1
      exact absurd (by rw [hx, hy]) (hr r)
  have hnone : startsFrom (k + 1) r = [] := by
    rcases hshort with rfl | rfl
    · rfl
    · have htail : ∀ b ∈ ([0x80] : Bytes), Utf8.isTail b = true := by
        intro b hb
        rw [List.mem_singleton.mp hb]
        rfl
      exact startsFrom_tails htail (k + 1) []
  have ho : ¬ k + 3 ≤ o := by
    have hle := h.le
    rcases hshort with rfl | rfl
    all_goals
      simp only [List.length_cons, List.length_nil] at hle
      omega
  have hsome : startsFrom k (0xE2 :: 0x80 :: d :: s) = (k + 3) :: startsFrom (k + 3) s := by
    rcases hd with rfl | rfl
    all_goals rw [startsFrom]
  rw [hs, hsome, hnone, List.takeWhile_cons_of_neg (by simpa using ho), List.takeWhile_nil]

/-- **The starts of lines up to an offset** depend on the text before it. -/
theorem takeWhile_startsFrom_append (h : LiesIn k o text more) :
    (startsFrom k (text ++ more)).takeWhile (fun x => decide (x ≤ o))
      = (startsFrom k text).takeWhile (fun x => decide (x ≤ o)) := by
  fun_induction startsFrom k text with
  | case1 k => exact takeWhile_startsFrom_of_le h.le more
  | case2 k r ih =>
    rw [List.cons_append, startsFrom]
    exact takeWhile_cons_congr (ih h.tail)
  | case3 k r ih =>
    rw [List.cons_append, List.cons_append, startsFrom]
    exact takeWhile_cons_congr (ih h.tail.tail)
  | case4 k r hr ih =>
    rw [List.cons_append]
    cases r with
    -- a return at the end of the text may become half of a line end
    | nil => exact takeWhile_startsFrom_return h
    | cons b r =>
      have hlf : ∀ s, b :: r ++ more ≠ 0x0A :: s := by
        intro s hs
        exact hr r (by rw [(List.cons.inj hs).1])
      rw [startsFrom_cr hlf]
      exact takeWhile_cons_congr (ih h.tail)
  | case5 k r ih =>
    rw [List.cons_append, List.cons_append, List.cons_append, startsFrom]
    exact takeWhile_cons_congr (ih h.tail.tail.tail)
  | case6 k r ih =>
    rw [List.cons_append, List.cons_append, List.cons_append, startsFrom]
    exact takeWhile_cons_congr (ih h.tail.tail.tail)
  | case7 k b r hlf _ hcr hline hparagraph ih =>
    rw [List.cons_append]
    -- so may the first bytes of a separator, which then ends behind the offset
    by_cases hsep : ∃ d s, (d = 0xA8 ∨ d = 0xA9) ∧ r ++ more = 0x80 :: d :: s ∧ b = 0xE2
    · obtain ⟨d, s, hd, hs, rfl⟩ := hsep
      refine takeWhile_startsFrom_separator hd hs (fun s hr => ?_) h
      rcases hd with rfl | rfl
      · exact hline s rfl hr
      · exact hparagraph s rfl hr
    · rw [startsFrom_skip k hlf hcr, ih h.tail]
      intro d s hs hb
      exact ⟨fun hd => hsep ⟨d, s, .inl hd, hs, hb⟩, fun hd => hsep ⟨d, s, .inr hd, hs, hb⟩⟩

/-! ## Places -/

/-- The last of the starts up to an offset is one of all starts. -/
theorem getD_takeWhile (p : Nat → Bool) (l : List Nat) :
    (0 :: l).getD (l.takeWhile p).length 0
      = (0 :: l.takeWhile p).getD (l.takeWhile p).length 0 := by
  obtain ⟨more, hmore⟩ := List.takeWhile_prefix p (l := l)
  rw [List.getD_eq_getElem?_getD, List.getD_eq_getElem?_getD]
  conv_lhs => rw [← hmore, ← List.cons_append]
  rw [hmore, List.getElem?_append_left (by simp)]

theorem slice_append (a : Nat) (h : o ≤ text.length) :
    (ofText (text ++ more)).slice a o = (ofText text).slice a o := by
  show ((text ++ more).drop a).take (o - a) = (text.drop a).take (o - a)
  by_cases ha : a ≤ text.length
  · rw [List.drop_append_of_le_length ha, List.take_append_of_le_length]
    rw [List.length_drop]
    omega
  · rw [Nat.sub_eq_zero_of_le (by omega), List.take_zero, List.take_zero]

/-- **The line and the column of an offset only depend on the text before it**, unless a line feed
goes on with the line end there. -/
theorem lineColumn_append (h : LiesIn 0 o text more) :
    (ofText (text ++ more)).lineColumn o = (ofText text).lineColumn o := by
  have hle : o ≤ text.length := Nat.le_trans h.le (Nat.le_of_eq (Nat.zero_add _))
  have hplace : ∀ t : Bytes, o ≤ t.length → (ofText t).lineColumn o
      = (((startsFrom 0 t).takeWhile (fun x => decide (x ≤ o))).length,
        width ((ofText t).slice
          ((0 :: (startsFrom 0 t).takeWhile (fun x => decide (x ≤ o))).getD
            ((startsFrom 0 t).takeWhile (fun x => decide (x ≤ o))).length 0) o)) := by
    intro t ht
    have hmin : min (o : Int).toNat (ofText t).text.length = o := Nat.min_eq_left ht
    unfold lineColumn
    dsimp only
    rw [hmin, ← getD_takeWhile]
    rfl
  rw [hplace text hle, hplace (text ++ more) (by rw [List.length_append]; omega),
    takeWhile_startsFrom_append h, slice_append _ hle]

end ScriptTidy.LineMap
