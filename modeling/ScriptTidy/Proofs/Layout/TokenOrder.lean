import ScriptTidy.Proofs.Layout.Offsets
import ScriptTidy.Proofs.Scanner.Progress

/-!
# The order of tokens

A scan only goes forward, so the tokens of a source start one behind the other, by line and column
as well as by offset. Only a chunk of a template literal takes no place if it has no text.

* `Cursor.Reads.place_le` : reading goes forward.
* `InOrder`, `inOrder_tokenize` : the tokens of a source that have mappings.
-/

namespace ScriptTidy

open Scanner

/-- The line and the column of a position. -/
def Position.place (p : Position) : Place := ⟨p.line, p.column⟩

/-- Whether the token is a chunk of a template literal without text. -/
def Token.isEmptyChunk (t : Token) : Bool := t.kind == .template && t.value.isEmpty

theorem Token.isEmptyChunk_iff {t : Token} :
    t.isEmptyChunk = true ↔ t.kind = .template ∧ t.value = [] := by
  unfold isEmptyChunk
  rw [Bool.and_eq_true, beq_iff_eq, List.isEmpty_iff]

namespace Place

variable {p q : Place}

theorem le_refl (p : Place) : p.le p = true := le_iff.mpr (.inr ⟨rfl, Int.le_refl _⟩)

theorem le_antisymm (hpq : p.le q = true) (hqp : q.le p = true) : p = q := by
  rw [le_iff] at hpq hqp
  have hline : p.line = q.line := by omega
  have hcolumn : p.column = q.column := by omega
  show (⟨p.line, p.column⟩ : Place) = ⟨q.line, q.column⟩
  rw [hline, hcolumn]

end Place

namespace Cursor

variable {c d : Cursor}

/-- **Reading goes forward.** -/
theorem Reads.place_le {gs : List Glyph} (h : c.Reads gs d) :
    c.position.place.le d.position.place = true := by
  induction gs generalizing c with
  | nil =>
    rw [h.eq_of_nil]
    exact Place.le_refl _
  | cons g gs ih =>
    obtain ⟨-, hg⟩ := h.uncons
    have hstep : c.position.place.le (c.past g (gs ++ d.rest)).position.place = true := by
      rw [Place.le_iff]
      unfold past Position.place position
      dsimp only
      split
      · exact .inr ⟨rfl, by dsimp only; omega⟩
      · split
        · exact .inl (by dsimp only; omega)
        · exact .inr ⟨rfl, by dsimp only; omega⟩
    exact Place.le_trans _ _ _ hstep (ih hg)

theorem Reaches.place_le (h : c.Reaches d) : c.position.place.le d.position.place = true := by
  obtain ⟨gs, hgs⟩ := h
  exact hgs.place_le

end Cursor

namespace Scanner

variable {c d : Cursor} {t : Token} {ts : List Token}

theorem Taken.start_le_stop (h : Taken c t d) :
    t.start.place.le t.stop.place = true ∧ t.start.offset ≤ t.stop.offset := by
  rw [h.start, h.stop]
  refine ⟨h.reaches.place_le, ?_⟩
  obtain ⟨gs, hgs⟩ := h.reaches
  have hoffset := hgs.offset_eq
  show (c.offset : Int) ≤ d.offset
  omega

/-- A chunk without text takes no place. -/
theorem Taken.stop_eq_start (h : Taken c t d) (hdec : Utf8.IsDecoding c.rest)
    (hempty : t.isEmptyChunk = true) : t.stop = t.start := by
  obtain ⟨hkind, hvalue⟩ := Token.isEmptyChunk_iff.mp hempty
  obtain ⟨gs, hgs, hwritten⟩ := h.written
  rw [hkind, hvalue] at hwritten
  have hnone : ∀ g ∈ gs, g.bytes = [] := List.flatMap_eq_nil_iff.mp hwritten
  cases gs with
  | nil => rw [h.stop, h.start, hgs.eq_of_nil]
  | cons g gs =>
    have hne := (hgs.isDecoding_left hdec).bytes_ne_nil g List.mem_cons_self
    exact absurd (hnone g List.mem_cons_self) hne

/-- **Tokens start one behind the other.** -/
theorem Passes.pairwise (h : Passes c ts d) :
    ts.Pairwise fun t u => t.start.place.le u.start.place := by
  induction h with
  | here => exact .nil
  | gap _ _ _ ih => exact ih
  | token hfirst hrest ih =>
    refine List.pairwise_cons.mpr ⟨fun u hu => ?_, ih⟩
    obtain ⟨a, b, ha, htaken⟩ := hrest.taken u hu
    rw [hfirst.start, htaken.start]
    exact (hfirst.reaches.trans ha).place_le

/-- The tokens start in order, and what takes a place does so forward. -/
structure InOrder (ts : List Token) : Prop where
  starts : ts.Pairwise fun t u => t.start.place.le u.start.place
  stop : ∀ t ∈ ts, t.start.place.le t.stop.place = true ∧ t.start.offset ≤ t.stop.offset
  empty : ∀ t ∈ ts, t.isEmptyChunk = true → t.stop = t.start

theorem Passes.inOrder (h : Passes c ts d) (hdec : Utf8.IsDecoding c.rest) : InOrder ts where
  starts := h.pairwise
  stop t ht := by
    obtain ⟨a, b, -, htaken⟩ := h.taken t ht
    exact htaken.start_le_stop
  empty t ht hempty := by
    obtain ⟨a, b, ha, htaken⟩ := h.taken t ht
    exact htaken.stop_eq_start (ha.isDecoding hdec) hempty

theorem InOrder.sublist {us : List Token} (h : InOrder ts) (hus : us.Sublist ts) : InOrder us where
  starts := h.starts.sublist hus
  stop t ht := h.stop t (hus.subset ht)
  empty t ht := h.empty t (hus.subset ht)

/-- **The tokens of a source that have mappings are in order.** -/
theorem inOrder_tokenize {source : Bytes} {tokens : List Token} (h : tokenize source = .ok tokens) :
    InOrder (Layout.mapped tokens) := by
  have hdec := (ofSource_within source).reaches.isDecoding (Utf8.isDecoding_glyphs source)
  obtain ⟨us, d, t, hus, hends, rfl⟩ := tokenize_passes h
  -- the end has no mapping
  have hmapped : Layout.mapped (us ++ [t]) = Layout.mapped us := by
    unfold Layout.mapped
    rw [hends.token, List.filter_append]
    exact List.append_nil _
  rw [hmapped]
  exact (hus.inOrder hdec).sublist List.filter_sublist

end Scanner

end ScriptTidy
