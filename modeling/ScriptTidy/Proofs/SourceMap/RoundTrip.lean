import Mathlib.Data.List.Destutter
import ScriptTidy.Proofs.SourceMap.Reader

/-!
# Reading source maps back

The text of the mappings is read back as the mappings that were added, in the order of the
generated text, with repeated ones left out. Writer and reader run along the same values, so the
one thing to show of a number is that it fits a word; the induction is on the mappings that are
left behind one that is written.

* `readSegment_fieldsOf` : one mapping.
* `readsOn_textFrom` : the mappings behind one that is written.
* `decodeMappings_build` : a whole map, built by any calls.
-/

namespace ScriptTidy

/-! ## What is written -/

/-- The mapping without what is not written of it: all about the original if it has none. -/
def Mapping.written (m : Mapping) : Mapping :=
  if m.hasOriginal then m else { m with original := ⟨0, 0⟩, source := [], name := [] }

/-- Lines and columns that differ by less than a word. -/
def Mapping.InRange (m : Mapping) : Prop :=
  (1 ≤ m.generated.line ∧ m.generated.line < 2 ^ 61)
    ∧ (0 ≤ m.generated.column ∧ m.generated.column < 2 ^ 61)
    ∧ (0 ≤ m.original.line ∧ m.original.line < 2 ^ 61)
    ∧ (0 ≤ m.original.column ∧ m.original.column < 2 ^ 61)

instance (m : Mapping) : Decidable m.InRange := inferInstanceAs (Decidable (_ ∧ _))

/-- Source and name of the mapping are in the tables of `s`, if they are written at all. -/
def SourceMap.Lists (s : SourceMap) (m : Mapping) : Prop :=
  m.hasOriginal = true → m.source ∈ s.sources ∧ (m.name ≠ [] → m.name ∈ s.names)

/-- The indices of the tables fit a word. -/
def SourceMap.TablesFit (s : SourceMap) : Prop :=
  s.sources.length ≤ 2 ^ 63 ∧ s.names.length ≤ 2 ^ 63

instance (s : SourceMap) : Decidable s.TablesFit := inferInstanceAs (Decidable (_ ∧ _))

/-- Lines and columns that differ by less than half a word. Lines of generated text are not written
as differences. -/
structure Mapping.Fits (m : Mapping) : Prop where
  generatedLine : 1 ≤ m.generated.line
  generatedColumn : 0 ≤ m.generated.column ∧ m.generated.column < 2 ^ 62
  originalLine : 0 ≤ m.original.line ∧ m.original.line ≤ 2 ^ 62
  originalColumn : 0 ≤ m.original.column ∧ m.original.column < 2 ^ 62

theorem Mapping.InRange.fits {m : Mapping} (h : m.InRange) : m.Fits := by
  obtain ⟨⟨hline, -⟩, hcolumn, horiginal, horiginal'⟩ := h
  exact ⟨hline, by omega, by omega, by omega⟩

/-- The indices of the tables stay below the limit. -/
structure SourceMap.TablesWithin (s : SourceMap) (limit : Int) : Prop where
  positive : 0 < limit
  sources : s.sources.length ≤ limit
  names : s.names.length ≤ limit

theorem SourceMap.TablesFit.within {s : SourceMap} (h : s.TablesFit) : s.TablesWithin (2 ^ 63) :=
  ⟨by decide, by exact_mod_cast h.1, by exact_mod_cast h.2⟩

/-- The values that the writer runs along stay where their differences fit half a word, or as far
as they are indices of tables, below the limit. -/
structure MapState.Bounded (limit : Int) (st : MapState) : Prop where
  column : 0 ≤ st.generatedColumn ∧ st.generatedColumn < 2 ^ 62
  source : 0 ≤ st.source ∧ st.source < limit
  originalLine : 0 ≤ st.originalLine ∧ st.originalLine < 2 ^ 62
  originalColumn : 0 ≤ st.originalColumn ∧ st.originalColumn < 2 ^ 62
  name : 0 ≤ st.name ∧ st.name < limit

/-- The values of the writer that the reader runs along as well. -/
def MapState.running (st : MapState) : Running :=
  ⟨st.source, st.originalLine, st.originalColumn, st.name⟩

/-! ## One mapping -/

theorem itemAt?_indexIn {table : List Bytes} {x : Bytes} (h : x ∈ table) :
    itemAt? table (SourceMap.indexIn table x) = some x := by
  have hlt : table.idxOf x < table.length := List.idxOf_lt_length_iff.mpr h
  unfold itemAt? SourceMap.indexIn
  dsimp only
  rw [if_pos hlt, if_neg (by omega), Int.toNat_natCast]
  exact List.getElem?_idxOf h

theorem indexIn_bounds {limit : Int} {table : List Bytes} {x : Bytes} (hlimit : 0 < limit)
    (h : table.length ≤ limit) :
    0 ≤ SourceMap.indexIn table x ∧ SourceMap.indexIn table x < limit := by
  unfold SourceMap.indexIn
  dsimp only
  split <;> omega

/-- The numbers for a mapping with an original place: the differences of the generated column,
the source, the original line and the original column. -/
def SourceMap.originFields (s : SourceMap) (st : MapState) (m : Mapping) : List Int :=
  [m.generated.column - st.generatedColumn, SourceMap.indexIn s.sources m.source - st.source,
    m.original.line - 1 - st.originalLine, m.original.column - st.originalColumn]

/-- What the next mapping is written relative to behind these numbers. -/
def SourceMap.originState (s : SourceMap) (st : MapState) (m : Mapping) : MapState :=
  { st with
    previous := some m
    generatedColumn := m.generated.column
    source := SourceMap.indexIn s.sources m.source
    originalLine := m.original.line - 1
    originalColumn := m.original.column }

section Segment

variable {limit : Int} {s : SourceMap} {st : MapState} {m : Mapping}

/-- The differences that are written fit a word, so that none of them is cut. -/
theorem fieldsOf_cases (hst : st.Bounded limit) (hm : m.Fits) :
    (m.hasOriginal = false ∧ s.fieldsOf st m = ([m.generated.column - st.generatedColumn],
        { st with previous := some m, generatedColumn := m.generated.column }))
      ∨ (m.hasOriginal = true ∧ m.name = [] ∧ s.fieldsOf st m = (s.originFields st m,
        s.originState st m))
      ∨ (m.hasOriginal = true ∧ m.name ≠ [] ∧ s.fieldsOf st m =
        (s.originFields st m ++ [SourceMap.indexIn s.names m.name - st.name],
          { s.originState st m with name := SourceMap.indexIn s.names m.name })) := by
  obtain ⟨-, ⟨hgc, hgc'⟩, ⟨hol, hol'⟩, hoc, hoc'⟩ := hm
  obtain ⟨⟨hc, hc'⟩, -, ⟨hl, hl'⟩, ⟨ho, ho'⟩, -⟩ := hst
  unfold SourceMap.fieldsOf SourceMap.originFields SourceMap.originState
  dsimp only
  rw [wrap64_eq_self (n := m.generated.column - _) (by omega),
    wrap64_eq_self (n := m.original.line - 1 - _) (by omega),
    wrap64_eq_self (n := m.original.column - _) (by omega)]
  cases horiginal : m.hasOriginal with
  | false => exact .inl ⟨rfl, rfl⟩
  | true =>
    by_cases hname : m.name = []
    · exact .inr (.inl ⟨rfl, hname, by rw [hname]; rfl⟩)
    · have hempty : m.name.isEmpty = false := List.isEmpty_eq_false_iff.mpr hname
      exact .inr (.inr ⟨rfl, hname, by rw [hempty]; rfl⟩)

theorem add_difference (a b : Int) : a + (b - a) = b := by omega

/-- The reader comes to the values that the writer went to. -/
theorem running_originState :
    st.running.moveBy (SourceMap.indexIn s.sources m.source - st.source)
      (m.original.line - 1 - st.originalLine) (m.original.column - st.originalColumn)
      = (s.originState st m).running := by
  unfold Running.moveBy MapState.running SourceMap.originState
  simp only [add_difference]

/-- **One mapping is read back**: the reader runs along with the writer. -/
theorem readSegment_fieldsOf (hst : st.Bounded limit) (hm : m.Fits) (hlists : s.Lists m) :
    readSegment s.sources s.names ⟨m.generated.line, st.generatedColumn⟩ st.running
        (s.fieldsOf st m).1 = some (m.written, (s.fieldsOf st m).2.running) := by
  unfold Mapping.written
  -- segments of one, four and five numbers
  obtain ⟨horiginal, heq⟩ | ⟨horiginal, hname, heq⟩ | ⟨horiginal, hname, heq⟩ :=
    fieldsOf_cases (s := s) hst hm
  · rw [heq, horiginal]
    simp only [readSegment, add_difference]
    rfl
  · have hsource : itemAt? s.sources (s.originState st m).running.source = some m.source :=
      itemAt?_indexIn (hlists horiginal).1
    rw [heq, if_pos horiginal]
    simp only [SourceMap.originFields, readSegment, running_originState, hsource, add_difference]
    show some (Mapping.mk m.generated ⟨m.original.line - 1 + 1, m.original.column⟩ m.source [], _)
      = some (m, _)
    rw [Int.sub_add_cancel, ← hname]
  · have hsource : itemAt? s.sources (s.originState st m).running.source = some m.source :=
      itemAt?_indexIn (hlists horiginal).1
    have htable : itemAt? s.names (SourceMap.indexIn s.names m.name) = some m.name :=
      itemAt?_indexIn ((hlists horiginal).2 hname)
    have hfifth : (s.originState st m).running.name
        + (SourceMap.indexIn s.names m.name - st.name) = SourceMap.indexIn s.names m.name :=
      add_difference _ _
    rw [heq, if_pos horiginal]
    simp only [SourceMap.originFields, List.cons_append, List.nil_append, readSegment,
      running_originState, Running.renameBy, hsource, hfifth, htable, add_difference]
    show some (Mapping.mk m.generated ⟨m.original.line - 1 + 1, m.original.column⟩ m.source
      m.name, _) = some (m, _)
    rw [Int.sub_add_cancel]
    rfl

/-- The writer goes from values in range to values in range. -/
theorem bounded_fieldsOf (hst : st.Bounded limit) (hm : m.Fits) (hs : s.TablesWithin limit) :
    (s.fieldsOf st m).2.Bounded limit := by
  have horigin : m.hasOriginal = true → (s.originState st m).Bounded limit := by
    intro h
    have hpos : 0 < m.original.line := of_decide_eq_true h
    obtain ⟨-, hcolumn, ⟨-, hline⟩, horiginal⟩ := hm
    have hzero : 0 ≤ m.original.line - 1 ∧ m.original.line - 1 < 2 ^ 62 := by omega
    exact ⟨hcolumn, indexIn_bounds hs.positive hs.sources, hzero, horiginal, hst.name⟩
  obtain ⟨-, heq⟩ | ⟨h, -, heq⟩ | ⟨h, -, heq⟩ := fieldsOf_cases (s := s) hst hm
  · rw [heq]
    exact { hst with column := hm.generatedColumn }
  · rw [heq]
    exact horigin h
  · rw [heq]
    exact { horigin h with name := indexIn_bounds hs.positive hs.names }

/-- Values in range differ by less than half a word, or by less than the limit of the tables. -/
theorem natAbs_fieldsOf (hst : st.Bounded limit) (hm : m.Fits) (hs : s.TablesWithin limit) :
    ∀ v ∈ (s.fieldsOf st m).1, (v.natAbs : Int) < max (2 ^ 62) limit := by
  have hcases := fieldsOf_cases (s := s) hst hm
  have hsource := indexIn_bounds (x := m.source) hs.positive hs.sources
  have hname := indexIn_bounds (x := m.name) hs.positive hs.names
  obtain ⟨-, hgc, hol, hoc⟩ := hm
  obtain ⟨hc, hsrc, hl, ho, hn⟩ := hst
  -- the four numbers of a mapping that has an original
  have horigin : m.hasOriginal = true →
      ∀ v ∈ s.originFields st m, (v.natAbs : Int) < max (2 ^ 62) limit := by
    intro h v hv
    have hpos : 0 < m.original.line := of_decide_eq_true h
    simp only [SourceMap.originFields, List.mem_cons, List.not_mem_nil, or_false] at hv
    omega
  intro v hv
  obtain ⟨-, heq⟩ | ⟨h, -, heq⟩ | ⟨h, -, heq⟩ := hcases
  · rw [heq, List.mem_singleton] at hv
    omega
  · rw [heq] at hv
    exact horigin h v hv
  · rw [heq] at hv
    rcases List.mem_append.mp hv with hv | hv
    · exact horigin h v hv
    · rw [List.mem_singleton] at hv
      omega

end Segment

/-! ## The mappings behind one that is written -/

theorem Mapping.generated_written (m : Mapping) : m.written.generated = m.generated := by
  unfold Mapping.written
  split <;> rfl

/-- The text of a list of mappings. -/
def SourceMap.textFrom (s : SourceMap) (st : MapState) (ms : List Mapping) : Bytes :=
  (s.piecesFrom st ms).flatMap MapPiece.render

/-- The text of the numbers of a mapping. -/
def SourceMap.segmentOf (s : SourceMap) (st : MapState) (m : Mapping) : Bytes :=
  (s.fieldsOf st m).1.flatMap Vlq.encode

/-- The state on the line of a mapping further down. -/
def MapState.onLine (st : MapState) (line : Int) : MapState :=
  { st with generatedLine := line, generatedColumn := 0 }

/-- The state behind a mapping that is written. -/
structure MapState.Behind (limit : Int) (st : MapState) (p : Mapping) : Prop where
  previous : st.previous = some p
  line : st.generatedLine = p.generated.line
  column : st.generatedColumn = p.generated.column
  bounded : st.Bounded limit

section Run

variable {limit : Int} {s : SourceMap} {st : MapState} {m p : Mapping} {ms : List Mapping}

theorem MapState.Bounded.onLine (h : st.Bounded limit) (line : Int) :
    (st.onLine line).Bounded limit :=
  { h with column := (by decide : (0 : Int) ≤ 0 ∧ (0 : Int) < 2 ^ 62) }

theorem bounded_start (h : 0 < limit) : ({} : MapState).Bounded limit :=
  ⟨by decide, ⟨Int.le_refl 0, h⟩, by decide, by decide, ⟨Int.le_refl 0, h⟩⟩

theorem behind_fieldsOf (hst : st.Bounded limit) (hline : st.generatedLine = m.generated.line)
    (hm : m.Fits) (hs : s.TablesWithin limit) : (s.fieldsOf st m).2.Behind limit m := by
  have hbounded := bounded_fieldsOf (s := s) hst hm hs
  obtain ⟨-, heq⟩ | ⟨-, -, heq⟩ | ⟨-, -, heq⟩ := fieldsOf_cases (s := s) hst hm
  all_goals
    rw [heq] at hbounded ⊢
    exact ⟨rfl, hline, rfl, hbounded⟩

/-- The text of a mapping is one segment. -/
theorem segmentText_segmentOf (hst : st.Bounded limit) (hm : m.Fits) (hs : s.TablesWithin limit)
    (hlimit : limit ≤ 2 ^ 63) (hlists : s.Lists m) :
    SegmentText s.sources s.names ⟨m.generated.line, st.generatedColumn⟩ st.running
      (s.segmentOf st m) m.written (s.fieldsOf st m).2.running := by
  have hclean : ∀ b ∈ s.segmentOf st m, b ≠ 0x2C ∧ b ≠ 0x3B := by
    intro b hb
    obtain ⟨v, -, hv⟩ := List.mem_flatMap.mp hb
    obtain ⟨hcomma, hsemicolon⟩ := Vlq.separator_not_mem_encode v
    exact ⟨fun he => hcomma (he ▸ hv), fun he => hsemicolon (he ▸ hv)⟩
  obtain ⟨v, values, hvalues⟩ : ∃ v values, (s.fieldsOf st m).1 = v :: values := by
    obtain ⟨-, heq⟩ | ⟨-, -, heq⟩ | ⟨-, -, heq⟩ := fieldsOf_cases (s := s) hst hm
    all_goals exact ⟨_, _, congrArg Prod.fst heq⟩
  refine ⟨?_, fun hb => (hclean _ hb).1 rfl, fun hb => (hclean _ hb).2 rfl, ?_, ?_⟩
  · rw [SourceMap.segmentOf, hvalues, List.flatMap_cons]
    exact List.append_ne_nil_of_left_ne_nil (Vlq.encode_ne_nil v) _
  · rw [Mapping.generated_written]
  · have hword : ∀ v ∈ (s.fieldsOf st m).1, v.natAbs < 2 ^ 63 := by
      intro v hv
      have hlt := natAbs_fieldsOf hst hm hs v hv
      omega
    rw [SourceMap.segmentOf, Vlq.fields?_encode hword]
    exact readSegment_fieldsOf hst hm hlists

/-- A mapping on a line further down. -/
theorem textFrom_below {count : Nat} (h : m.generated.line = st.generatedLine + (count + 1 : Nat)) :
    s.textFrom st (m :: ms) = List.replicate (count + 1) 0x3B
      ++ (s.segmentOf (st.onLine m.generated.line) m
        ++ s.textFrom (s.fieldsOf (st.onLine m.generated.line) m).2 ms) := by
  have hne : m.generated.line ≠ st.generatedLine := by omega
  have hlt : st.generatedLine < m.generated.line := by omega
  have hcount : (m.generated.line - st.generatedLine).toNat = count + 1 := by omega
  have hpieces : s.piecesOf st m = (List.replicate (count + 1) .lineEnd
      ++ [.fields (s.fieldsOf (st.onLine m.generated.line) m).1],
      (s.fieldsOf (st.onLine m.generated.line) m).2) := by
    unfold SourceMap.piecesOf
    rw [if_pos hne, hcount, if_pos hlt]
    rfl
  have hends : (List.replicate (count + 1) MapPiece.lineEnd).flatMap MapPiece.render
      = List.replicate (count + 1) 0x3B := by
    rw [List.flatMap_replicate]
    exact List.flatten_replicate_singleton
  unfold SourceMap.textFrom
  rw [SourceMap.piecesFrom, hpieces]
  dsimp only
  rw [List.flatMap_append, List.flatMap_append, hends, List.flatMap_singleton, List.append_assoc]
  rfl

/-- What is written for a mapping behind another one: it is on a line further down, or repeats
that mapping, or comes next on its line. -/
theorem textFrom_cases (s : SourceMap) (ms : List Mapping) (hst : st.Behind limit p)
    (hle : p.generated.le m.generated = true) :
    (∃ count : Nat, m.generated.line = p.generated.line + (count + 1 : Nat))
      ∨ (p = m ∧ s.textFrom st (m :: ms) = s.textFrom st ms)
      ∨ (p ≠ m ∧ m.generated.line = p.generated.line ∧ s.textFrom st (m :: ms)
        = 0x2C :: (s.segmentOf st m ++ s.textFrom (s.fieldsOf st m).2 ms)) := by
  by_cases hline : m.generated.line = p.generated.line
  · have hsame : ¬ m.generated.line ≠ st.generatedLine := by
      rw [hst.line, hline]
      exact fun h => h rfl
    unfold SourceMap.textFrom
    rw [SourceMap.piecesFrom, SourceMap.piecesOf, if_neg hsame, hst.previous]
    by_cases hp : p = m
    · rw [if_pos (congrArg some hp)]
      exact .inr (.inl ⟨hp, rfl⟩)
    · rw [if_neg fun he => hp (Option.some.inj he)]
      exact .inr (.inr ⟨hp, hline, rfl⟩)
  · have hlt : p.generated.line < m.generated.line := by
      unfold Place.le at hle
      simp only [Bool.or_eq_true, decide_eq_true_eq, Bool.and_eq_true, beq_iff_eq] at hle
      omega
    exact .inl ⟨(m.generated.line - p.generated.line - 1).toNat, by omega⟩

/-- **The mappings behind one that is written are read back.** -/
theorem readsOn_textFrom (hs : s.TablesWithin limit) (hlimit : limit ≤ 2 ^ 63) (ms : List Mapping) :
    ∀ {st : MapState} {p : Mapping}, st.Behind limit p →
      (p :: ms).Pairwise (fun a b => a.generated.le b.generated) →
      (∀ m ∈ ms, m.Fits ∧ s.Lists m) →
      ∃ kept, ms.destutter' (· ≠ ·) p = p :: kept
        ∧ ReadsOn s.sources s.names p.generated st.running (s.textFrom st ms)
          (kept.map Mapping.written) := by
  induction ms with
  | nil =>
    intro st p _ _ _
    exact ⟨[], rfl, readsOn_nil p.generated st.running⟩
  | cons m ms ih =>
    intro st p hst hsorted hms
    obtain ⟨hm, hlists⟩ := hms m List.mem_cons_self
    have hrest : ∀ m ∈ ms, m.Fits ∧ s.Lists m := fun k hk => hms k (List.mem_cons_of_mem m hk)
    obtain ⟨hp, hsorted'⟩ := List.pairwise_cons.mp hsorted
    obtain ⟨count, hline⟩ | ⟨rfl, htext⟩ | ⟨hne, hline, htext⟩ :=
      textFrom_cases s ms hst (hp m List.mem_cons_self)
    · -- the mapping opens a line further down
      have hne : p ≠ m := by
        rintro rfl
        omega
      have hdown := hst.bounded.onLine m.generated.line
      obtain ⟨kept, hkept, hreads⟩ := ih (behind_fieldsOf hdown rfl hm hs) hsorted' hrest
      rw [List.destutter'_cons_pos ms hne, hkept, textFrom_below (hst.line ▸ hline)]
      refine ⟨m :: kept, rfl, .lines hline (segmentText_segmentOf hdown hm hs hlimit hlists) ?_⟩
      rw [Mapping.generated_written]
      exact hreads
    · -- the mapping repeats the one before it
      obtain ⟨kept, hkept, hreads⟩ := ih hst hsorted' hrest
      rw [List.destutter'_cons_neg ms fun h => h rfl, htext]
      exact ⟨kept, hkept, hreads⟩
    · -- the mapping comes next on its line
      have hsegment := segmentText_segmentOf hst.bounded hm hs hlimit hlists
      obtain ⟨kept, hkept, hreads⟩ :=
        ih (behind_fieldsOf hst.bounded (hst.line.trans hline.symm) hm hs) hsorted' hrest
      rw [List.destutter'_cons_pos ms hne, hkept, htext]
      rw [hline, hst.column] at hsegment
      refine ⟨m :: kept, rfl, .comma hsegment ?_⟩
      rw [Mapping.generated_written]
      exact hreads

/-- The first mapping opens its line, as any mapping on a line further down does. -/
theorem textFrom_first (h : 1 ≤ m.generated.line) :
    s.textFrom {} (m :: ms) = List.replicate (m.generated.line - 1).toNat 0x3B
      ++ (s.segmentOf (MapState.onLine {} m.generated.line) m
        ++ s.textFrom (s.fieldsOf (MapState.onLine {} m.generated.line) m).2 ms) := by
  by_cases hone : m.generated.line = 1
  · have hpieces : s.piecesOf {} m = ([.fields (s.fieldsOf {} m).1], (s.fieldsOf {} m).2) := by
      unfold SourceMap.piecesOf
      rw [if_neg fun hne => hne hone, if_neg fun he => nomatch he]
      rfl
    unfold SourceMap.textFrom
    rw [SourceMap.piecesFrom, hpieces, hone]
    rfl
  · have hcount : (m.generated.line - 1).toNat = (m.generated.line - 2).toNat + 1 := by omega
    rw [hcount]
    apply textFrom_below
    show m.generated.line = 1 + _
    omega

end Run

/-! ## Maps built by calls -/

theorem Place.le_trans (a b c : Place) : a.le b = true → b.le c = true → a.le c = true := by
  unfold Place.le
  simp only [Bool.or_eq_true, decide_eq_true_eq, Bool.and_eq_true, beq_iff_eq]
  omega

theorem Place.le_total (a b : Place) : (a.le b || b.le a) = true := by
  unfold Place.le
  simp only [Bool.or_eq_true, decide_eq_true_eq, Bool.and_eq_true, beq_iff_eq]
  omega

/-- The list sorted by generated place, mappings of one place in the order they had. -/
structure StablySorted (ms sorted : List Mapping) : Prop where
  perm : sorted.Perm ms
  ordered : sorted.Pairwise fun a b => a.generated.le b.generated
  stable : ∀ p, sorted.filter (·.generated = p) = ms.filter (·.generated = p)

/-- Mappings are written in the order of the generated text. -/
theorem stablySorted_sorted (s : SourceMap) : StablySorted s.mappings.toList s.sorted := by
  have htrans : ∀ a b c : Mapping, a.generated.le b.generated = true →
      b.generated.le c.generated = true → a.generated.le c.generated = true :=
    fun a b c => Place.le_trans _ _ _
  have htotal : ∀ a b : Mapping,
      (a.generated.le b.generated || b.generated.le a.generated) = true :=
    fun a b => Place.le_total _ _
  have hperm := List.mergeSort_perm s.mappings.toList fun a b => a.generated.le b.generated
  refine ⟨hperm, List.pairwise_mergeSort htrans htotal _, fun p => ?_⟩
  -- sorting keeps what is in order, and mappings of one place are
  have hplace : (s.mappings.toList.filter (·.generated = p)).Pairwise
      fun a b => a.generated.le b.generated := by
    refine List.pairwise_of_forall_mem_list fun a ha b hb => ?_
    have hap : a.generated = p := of_decide_eq_true (List.mem_filter.mp ha).2
    have hbp : b.generated = p := of_decide_eq_true (List.mem_filter.mp hb).2
    rw [hap, hbp]
    exact (Bool.or_self _).symm.trans (Place.le_total p p)
  have hkept := (List.sublist_mergeSort htrans htotal hplace List.filter_sublist).filter
    (fun m => decide (m.generated = p))
  rw [List.filter_filter] at hkept
  simp only [Bool.and_self] at hkept
  exact (hkept.eq_of_length (hperm.filter _).length_eq.symm).symm

/-- A call that builds a map. -/
inductive SourceMap.Call
  | mapping (m : Mapping)
  | content (source text : Bytes)
deriving DecidableEq, Repr

namespace SourceMap

/-- The map after a call. -/
def call (s : SourceMap) : Call → SourceMap
  | .mapping m => s.add m
  | .content source text => s.setContent source text

/-- The map of the file built by calls. -/
def build (file : Bytes) (calls : List Call) : SourceMap := calls.foldl call { file }

/-- The mapping that a call adds. -/
def Call.added? : Call → Option Mapping
  | .mapping m => some m
  | .content _ _ => none

end SourceMap

section Build

variable {s : SourceMap} {c : SourceMap.Call}

theorem mem_addOnce {x y : Bytes} {xs : List Bytes} : y ∈ addOnce x xs ↔ y = x ∨ y ∈ xs := by
  unfold addOnce
  split
  next h =>
    have hmem : x ∈ xs := List.contains_iff_mem.mp h
    exact ⟨.inr, fun hy => hy.elim (fun he => he ▸ hmem) id⟩
  next =>
    rw [List.mem_append, List.mem_singleton]
    exact Or.comm

theorem mappings_call : (s.call c).mappings.toList = s.mappings.toList ++ c.added?.toList := by
  cases c with
  | mapping m =>
    show (s.add m).mappings.toList = _ ++ [m]
    unfold SourceMap.add
    split <;> exact Array.toList_push
  | content source text => exact (List.append_nil _).symm

/-- A call lists what its own mapping needs and forgets nothing. -/
theorem lists_call {m : Mapping} (h : s.Lists m ∨ c = .mapping m) : (s.call c).Lists m := by
  intro horiginal
  cases c with
  | mapping k =>
    -- a mapping without an original is kept, but lists nothing
    by_cases hk : k.hasOriginal = true
    · have hadd : s.add k = { s with
          mappings := s.mappings.push k
          sources := addOnce k.source s.sources
          names := if k.name.isEmpty then s.names else addOnce k.name s.names } := if_pos hk
      show m.source ∈ (s.add k).sources ∧ (m.name ≠ [] → m.name ∈ (s.add k).names)
      rw [hadd]
      rcases h with h | h
      · obtain ⟨hsource, hname⟩ := h horiginal
        refine ⟨mem_addOnce.mpr (.inr hsource), fun hne => ?_⟩
        dsimp only
        split
        next => exact hname hne
        next => exact mem_addOnce.mpr (.inr (hname hne))
      · cases h
        refine ⟨mem_addOnce.mpr (.inl rfl), fun hne => ?_⟩
        dsimp only
        rw [if_neg fun he => hne (List.isEmpty_iff.mp he)]
        exact mem_addOnce.mpr (.inl rfl)
    · have hadd : s.add k = { s with mappings := s.mappings.push k } := if_neg hk
      have hne : SourceMap.Call.mapping k ≠ .mapping m := by
        rintro ⟨⟩
        exact hk horiginal
      show m.source ∈ (s.add k).sources ∧ (m.name ≠ [] → m.name ∈ (s.add k).names)
      rw [hadd]
      exact h.resolve_right hne horiginal
  | content source text =>
    obtain ⟨hsource, hname⟩ := h.resolve_right SourceMap.Call.noConfusion horiginal
    exact ⟨mem_addOnce.mpr (.inr hsource), hname⟩

/-- What calls add to a map: their mappings in order, with the sources and names of all. -/
theorem foldl_call (calls : List SourceMap.Call) :
    ∀ {s : SourceMap}, (∀ m ∈ s.mappings.toList, s.Lists m) →
      (calls.foldl SourceMap.call s).mappings.toList
          = s.mappings.toList ++ calls.filterMap (·.added?)
        ∧ ∀ m ∈ (calls.foldl SourceMap.call s).mappings.toList,
            (calls.foldl SourceMap.call s).Lists m := by
  induction calls with
  | nil =>
    intro s hs
    exact ⟨(List.append_nil _).symm, hs⟩
  | cons c calls ih =>
    intro s hs
    have hstep : ∀ m ∈ (s.call c).mappings.toList, (s.call c).Lists m := by
      intro m hm
      rw [mappings_call] at hm
      rcases List.mem_append.mp hm with hm | hm
      · exact lists_call (.inl (hs m hm))
      · cases c with
        | mapping k => exact lists_call (.inr (congrArg _ (List.mem_singleton.mp hm).symm))
        | content source text => cases hm
    obtain ⟨hmappings, hlists⟩ := ih hstep
    refine ⟨?_, hlists⟩
    rw [List.foldl_cons, hmappings, mappings_call, List.append_assoc]
    cases c <;> rfl

end Build

/-- **The text of the mappings is read back.** -/
theorem decodeMappings_encodeMappings {s : SourceMap} {limit : Int}
    (hs : s.TablesWithin limit) (hlimit : limit ≤ 2 ^ 63)
    (hms : ∀ m ∈ s.sorted, m.Fits ∧ s.Lists m)
    (hsorted : s.sorted.Pairwise fun a b => a.generated.le b.generated) :
    decodeMappings s.sources s.names s.encodeMappings
      = some ((s.sorted.destutter (· ≠ ·)).map Mapping.written) := by
  show readLines s.sources s.names 1 {} (Bytes.splitOn 0x3B (s.textFrom {} s.sorted)) = _
  revert hms hsorted
  cases s.sorted with
  | nil =>
    intro _ _
    rfl
  | cons m ms =>
    intro hms hsorted
    obtain ⟨hm, hlists⟩ := hms m List.mem_cons_self
    have hstart := (bounded_start hs.positive).onLine m.generated.line
    obtain ⟨kept, hkept, hreads⟩ := readsOn_textFrom hs hlimit ms (behind_fieldsOf hstart rfl hm hs)
      hsorted fun k hk => hms k (List.mem_cons_of_mem m hk)
    -- the reader is on the line of the first mapping, behind the empty lines
    have hline : 1 + ((m.generated.line - 1).toNat : Int) = m.generated.line := by
      have hone := hm.generatedLine
      omega
    rw [textFrom_first hm.generatedLine, readLines_replicate, hline, List.destutter_cons', hkept]
    refine readLines_segment (segmentText_segmentOf hstart hm hs hlimit hlists) ?_
    rw [Mapping.generated_written]
    exact hreads

/-- **Reading undoes writing.** The text of the mappings, with the tables of the map, stands for
exactly the mappings that were added: in the order of the generated text, those of one place in
the order they were added, without those equal to the one before, and without the original where
there is none. -/
theorem decodeMappings_build (file : Bytes) (calls : List SourceMap.Call)
    (hrange : ∀ m ∈ calls.filterMap (·.added?), m.InRange)
    (hfit : (SourceMap.build file calls).TablesFit) :
    ∃ sorted, StablySorted (calls.filterMap (·.added?)) sorted
      ∧ decodeMappings (SourceMap.build file calls).sources (SourceMap.build file calls).names
          (SourceMap.build file calls).encodeMappings
        = some ((sorted.destutter (· ≠ ·)).map Mapping.written) := by
  have hempty : ∀ m ∈ ({ file } : SourceMap).mappings.toList, ({ file } : SourceMap).Lists m :=
    fun m hm => nomatch hm
  obtain ⟨hfold, hlists⟩ := foldl_call calls hempty
  have hmappings : (SourceMap.build file calls).mappings.toList = calls.filterMap (·.added?) :=
    hfold
  have hsorted := stablySorted_sorted (SourceMap.build file calls)
  have hms : ∀ m ∈ (SourceMap.build file calls).sorted,
      m.Fits ∧ (SourceMap.build file calls).Lists m := by
    intro m hm
    have hadded := hsorted.perm.mem_iff.mp hm
    exact ⟨(hrange m (hmappings ▸ hadded)).fits, hlists m hadded⟩
  refine ⟨_, ?_, decodeMappings_encodeMappings hfit.within (Int.le_refl _) hms hsorted.ordered⟩
  exact hmappings ▸ hsorted

/-- Calls out of order: lines without mappings, a repeated mapping, one without original, and a
source that is listed before any mapping uses it. -/
def sampleCalls : List SourceMap.Call :=
  [.content [0x62] [], .mapping ⟨⟨4, 2⟩, ⟨1, 7⟩, [0x61], [0x78]⟩,
    .mapping ⟨⟨1, 5⟩, ⟨3, 0⟩, [0x62], []⟩, .mapping ⟨⟨4, 2⟩, ⟨1, 7⟩, [0x61], [0x78]⟩,
    .mapping ⟨⟨4, 0⟩, ⟨0, 9⟩, [0x63], [0x79]⟩]

theorem decodeMappings_build_sample :
    ∃ sorted, StablySorted (sampleCalls.filterMap (·.added?)) sorted
      ∧ decodeMappings (SourceMap.build [] sampleCalls).sources
          (SourceMap.build [] sampleCalls).names (SourceMap.build [] sampleCalls).encodeMappings
        = some ((sorted.destutter (· ≠ ·)).map Mapping.written) :=
  decodeMappings_build [] sampleCalls (by decide) (by decide)

end ScriptTidy
