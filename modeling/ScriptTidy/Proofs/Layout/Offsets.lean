import ScriptTidy.Config.Basic
import ScriptTidy.Proofs.Layout.GeneratedPlaces
import ScriptTidy.Proofs.SourceMap.Words

/-!
# Offsets within a word

The offsets of a configuration are added to the places of tokens and of the output, and the places
of a source map are written as differences, all in 64-bit words. Only the sign of an offset is
checked. Here it is shown how large offsets can be for all of this to be the arithmetic of
integers: the length of the source, and that of the output, has to be left free.

* `Onward` : a place that lies ahead, no further than what was written in between allows.
* `placed` : the places of output and input that mappings are made from.
* `exactMapping` : a mapping made from them in unbounded integers.
* `addAll_exact` : places in range that go forward are written and read back.
* `format_withinWords` : the formatter and its source map.
-/

namespace ScriptTidy

open Scanner

/-! ## Places in the input -/

theorem Cursor.Reads.line_le {c d : Cursor} {gs : List Glyph} (h : c.Reads gs d) :
    c.line ≤ d.line := by
  induction gs generalizing c with
  | nil => exact Nat.le_of_eq (by rw [h.eq_of_nil])
  | cons g gs ih =>
    obtain ⟨_, hg⟩ := h.uncons
    have hpast : c.line ≤ (c.past g (gs ++ d.rest)).line := by
      rw [past_line]
      omega
    exact Nat.le_trans hpast (ih hg)

/-- Lines count from one, and a position lies in the source. -/
theorem Cursor.Shows.within {source : Bytes} {p : Position} (h : (ofSource source).Shows p) :
    1 ≤ p.line ∧ p.offset ≤ source.length := by
  obtain ⟨d, ⟨gs, hgs⟩, rfl⟩ := h
  have hline : 1 ≤ d.line := hgs.line_le
  have hoffset : d.offset = 0 + (gs.flatMap (·.bytes)).length := hgs.offset_eq
  have hsource : Utf8.glyphs source = gs ++ d.rest := hgs.rest_eq
  have hbytes := congrArg List.length (Utf8.bytes_glyphs source)
  rw [hsource, List.flatMap_append, List.length_append] at hbytes
  simp only [Cursor.position]
  omega

/-! ## Places in the output -/

namespace Place

/-- The place `q` lies at or behind `p`, by no more than `n` lines and columns together. -/
structure Onward (n : Nat) (p q : Place) : Prop where
  le : p.le q = true
  column : 0 ≤ q.column
  near : q.line + q.column ≤ p.line + p.column + n

variable {p q r : Place} {m n : Nat}

theorem le_iff : p.le q = true ↔ p.line < q.line ∨ p.line = q.line ∧ p.column ≤ q.column := by
  unfold Place.le
  simp only [Bool.or_eq_true, decide_eq_true_eq, Bool.and_eq_true, beq_iff_eq]

theorem onward_self (h : 0 ≤ p.column) : Onward 0 p p :=
  ⟨le_iff.mpr (.inr ⟨rfl, Int.le_refl _⟩), h, by omega⟩

theorem Onward.trans (hpq : Onward n p q) (hqr : Onward m q r) : Onward (n + m) p r := by
  have hnear := hpq.near
  have hnear' := hqr.near
  exact ⟨Place.le_trans _ _ _ hpq.le hqr.le, hqr.column, by omega⟩

theorem Onward.mono (h : Onward n p q) (hle : n ≤ m) : Onward m p q := by
  have hnear := h.near
  exact ⟨h.le, h.column, by omega⟩

/-- **Writing goes forward**, by no more lines and columns than bytes. -/
theorem onward_behind (h : 0 ≤ p.column) (text : Bytes) : Onward text.length p (p.behind text) := by
  have hdec := Utf8.isDecoding_glyphs text
  have hlength := congrArg List.length (Utf8.bytes_glyphs text)
  rw [← hlength]
  unfold Place.behind Utf8.chars
  generalize Utf8.glyphs text = gs at hdec
  induction gs generalizing p with
  | nil => exact onward_self h
  | cons g gs ih =>
    have hwidth := hdec.utf16Width_le g List.mem_cons_self
    have hpos := List.length_pos_iff.mpr (hdec.bytes_ne_nil g List.mem_cons_self)
    have hrest : Utf8.IsDecoding gs :=
      Utf8.IsDecoding.right (show Utf8.IsDecoding ([g] ++ gs) from hdec)
    rw [List.flatMap_cons, List.length_append, List.map_cons, List.foldl_cons]
    have hstep : Onward g.bytes.length p
        (if g.char == '\n' then ⟨p.line + 1, 0⟩ else ⟨p.line, p.column + utf16Width g.char⟩) := by
      split
      · exact ⟨le_iff.mpr (.inl (by dsimp only; omega)), Int.le_refl 0, by dsimp only; omega⟩
      · exact ⟨le_iff.mpr (.inr ⟨rfl, by dsimp only; omega⟩), by dsimp only; omega,
          by dsimp only; omega⟩
    exact hstep.trans (ih hstep.column hrest)

theorem onward_behindAll (h : 0 ≤ p.column) (pieces : List Bytes) :
    Onward pieces.flatten.length p (p.behindAll pieces) := by
  induction pieces generalizing p with
  | nil => exact onward_self h
  | cons piece pieces ih =>
    have hpiece := onward_behind h piece
    rw [List.flatten_cons, List.length_append]
    exact hpiece.trans (ih hpiece.column)

end Place

namespace Layout

/-- Where the text of each token with a mapping starts, with where the token started. -/
def placed : Place → List Emission → List (Place × Position)
  | _, [] => []
  | p, e :: rest =>
    (e.original.toList.map fun start => (p.behindAll e.gap, start))
      ++ placed (((p.behindAll e.gap).behind e.text).behindAll e.after) rest

theorem mappingsFrom_eq_placed (o : Options) (p : Place) (es : List Emission) :
    mappingsFrom o p es = (placed p es).map fun x =>
      ⟨o.generatedPlace x.1, o.originalPlace x.2, o.url, []⟩ := by
  induction es generalizing p with
  | nil => rfl
  | cons e rest ih =>
    rw [mappingsFrom, placed, List.map_append, ih]
    cases e.original with
    | none => rfl
    | some start => rfl

/-- **Texts start one behind the other**, within what is written. -/
theorem onward_placed (es : List Emission) : ∀ {p : Place}, 0 ≤ p.column →
    (∀ x ∈ placed p es, p.Onward (es.flatMap Emission.bytes).length x.1)
      ∧ (placed p es).Pairwise fun x y => x.1.le y.1 := by
  induction es with
  | nil => exact fun _ => ⟨fun x hx => (List.not_mem_nil hx).elim, .nil⟩
  | cons e rest ih =>
    intro p hp
    have hgap := Place.onward_behindAll hp e.gap
    have htext := Place.onward_behind hgap.column e.text
    have hafter := Place.onward_behindAll htext.column e.after
    obtain ⟨hrest, hpairwise⟩ := ih hafter.column
    rw [List.flatMap_cons, List.length_append, Emission.bytes, List.length_append,
      List.length_append, placed]
    -- a text lies behind its gap, and all later ones lie behind the text
    refine ⟨fun x hx => ?_, List.pairwise_append.mpr ⟨?_, hpairwise, fun x hx y hy => ?_⟩⟩
    · rcases List.mem_append.mp hx with hx | hx
      · obtain ⟨start, _, rfl⟩ := List.mem_map.mp hx
        exact hgap.mono (by omega)
      · exact ((hgap.trans htext).trans hafter).trans (hrest x hx)
    · cases e.original with
      | none => exact .nil
      | some start => exact List.pairwise_singleton _ _
    · obtain ⟨start, _, rfl⟩ := List.mem_map.mp hx
      exact (htext.trans (hafter.trans (hrest y hy))).le

/-- The places in the input are those of tokens. -/
theorem original_mem_placed {indent : Bytes} (ts : List Token) : ∀ {s : LayoutState} {p : Place},
    ∀ x ∈ placed p (emissionsFrom indent s ts), ∃ t ∈ ts, x.2 = t.start := by
  induction ts with
  | nil => exact fun x hx => nomatch hx
  | cons t ts ih =>
    intro s p x hx
    rw [emissionsFrom, placed] at hx
    rcases List.mem_append.mp hx with hx | hx
    · obtain ⟨start, hstart, rfl⟩ := List.mem_map.mp hx
      refine ⟨t, List.mem_cons_self, ?_⟩
      rw [original_step] at hstart
      split at hstart
      · cases hstart
      · exact List.mem_singleton.mp hstart
    · obtain ⟨u, hu, hx⟩ := ih x hx
      exact ⟨u, List.mem_cons_of_mem t hu, hx⟩

end Layout

/-! ## Offsets -/

namespace Options

variable {o : Options} {start : Int}

/-- The line of a part of a file as a line of the file, in integers. -/
def exactLine (start line : Int) : Int := if 0 < start then line + (start - 1) else line

/-- Where a token lies in the file that the input is part of, in integers. -/
def exactOriginal (o : Options) (start : Position) : Place :=
  { line := exactLine o.originalStartLine start.line
    column :=
      if start.line = 1 ∧ 0 < o.originalStartColumn then start.column + o.originalStartColumn
      else start.column }

/-- Where a place of the output lies in the file it is put into, in integers. -/
def exactGenerated (o : Options) (p : Place) : Place :=
  { p with line := exactLine o.generatedStartLine p.line }

/-- The mapping of a token whose text starts at a place, in integers. -/
def exactMapping (o : Options) (x : Place × Position) : Mapping :=
  ⟨o.exactGenerated x.1, o.exactOriginal x.2, o.url, []⟩

theorem shiftLine_eq_exactLine {line : Int} (hline : 0 ≤ line) (hsum : start + line ≤ 2 ^ 63) :
    shiftLine start line = exactLine start line := by
  unfold shiftLine exactLine
  split
  next hpos => rw [wrap64_eq_self (n := start - 1) (by omega), wrap64_eq_self (by omega)]
  next => rfl

theorem originalPlace_eq_exact {p : Position} (hline : 0 ≤ p.line) (hcolumn : 0 ≤ p.column)
    (hlines : o.originalStartLine + p.line ≤ 2 ^ 63)
    (hcolumns : o.originalStartColumn + p.column < 2 ^ 63) :
    o.originalPlace p = o.exactOriginal p := by
  unfold originalPlace exactOriginal
  rw [shiftLine_eq_exactLine hline hlines]
  congr 1
  split
  next h => exact wrap64_eq_self (by omega)
  next => rfl

theorem generatedPlace_eq_exact {p : Place} (hline : 0 ≤ p.line)
    (hlines : o.generatedStartLine + p.line ≤ 2 ^ 63) :
    o.generatedPlace p = o.exactGenerated p := by
  unfold generatedPlace exactGenerated
  rw [shiftLine_eq_exactLine hline hlines]

/-- Offsets keep the order of places. -/
theorem exactGenerated_le {p q : Place} (h : p.le q = true) :
    (o.exactGenerated p).le (o.exactGenerated q) = true := by
  rw [Place.le_iff] at h ⊢
  unfold exactGenerated exactLine
  dsimp only
  split <;> omega

end Options

/-! ## Source maps of one source -/

namespace SourceMap

variable {s : SourceMap} {file url : Bytes} {ms : List Mapping}

theorem addAll_eq_foldl_call (s : SourceMap) (ms : List Mapping) :
    s.addAll ms = (ms.map Call.mapping).foldl call s := by
  rw [List.foldl_map]
  rfl

/-- Mappings without names list one source. -/
theorem tables_addAll (ms : List Mapping) (hms : ∀ m ∈ ms, m.source = url ∧ m.name = []) :
    ∀ {s : SourceMap}, (s.sources = [] ∨ s.sources = [url]) → s.names = [] →
      ((s.addAll ms).sources = [] ∨ (s.addAll ms).sources = [url]) ∧ (s.addAll ms).names = [] := by
  induction ms with
  | nil => exact fun hsources hnames => ⟨hsources, hnames⟩
  | cons m ms ih =>
    intro s hsources hnames
    obtain ⟨hsource, hname⟩ := hms m List.mem_cons_self
    have hadd : ((s.add m).sources = [] ∨ (s.add m).sources = [url]) ∧ (s.add m).names = [] := by
      unfold SourceMap.add
      dsimp only
      split
      · rw [hsource, hname, hnames]
        refine ⟨.inr ?_, rfl⟩
        rcases hsources with he | he
        · rw [he]
          rfl
        · rw [he, addOnce, if_pos (List.contains_iff_mem.mpr List.mem_cons_self)]
      · exact ⟨hsources, hnames⟩
    exact ih (fun k hk => hms k (List.mem_cons_of_mem m hk)) hadd.1 hadd.2

/-- **Mappings of one source, in order and in range, are written by numbers of at most 62 bits, and
read back.** -/
theorem addAll_exact (hms : ∀ m ∈ ms, m.Fits ∧ m.hasOriginal = true ∧ m.source = url ∧ m.name = [])
    (hsorted : ms.Pairwise fun a b => a.generated.le b.generated)
    (hs : s = ({ file } : SourceMap).addAll ms) :
    (∀ values, .fields values ∈ s.pieces → ∀ v ∈ values, -2 ^ 62 < v ∧ v < 2 ^ 62)
      ∧ decodeMappings s.sources s.names s.encodeMappings = some (ms.destutter (· ≠ ·)) := by
  have htables := tables_addAll ms (fun m hm => (hms m hm).2.2) (s := { file }) (.inl rfl) rfl
  have hcalls := foldl_call (ms.map Call.mapping) (s := { file }) fun m hm => nomatch hm
  rw [← addAll_eq_foldl_call, ← hs] at hcalls
  rw [← hs] at htables
  have hwithin : s.TablesWithin 1 := by
    refine ⟨by decide, ?_, by rw [htables.2]; decide⟩
    rcases htables.1 with he | he <;> rw [he]
    · exact Int.zero_le_ofNat 1
    · exact Int.le_refl 1
  -- nothing is left out and nothing is moved by sorting
  have hmappings : s.mappings.toList = ms := by
    rw [hcalls.1, List.filterMap_map]
    exact List.filterMap_some
  have hinOrder : s.sorted = ms := by
    rw [sorted, hmappings]
    exact List.mergeSort_of_pairwise hsorted
  refine ⟨fun values hvalues v hv => ?_, ?_⟩
  · have hbound := fields_piecesFrom hwithin s.sorted (bounded_start hwithin.positive)
      (fun m hm => (hms m (hinOrder ▸ hm)).1) values hvalues v hv
    omega
  · have hlists : ∀ m ∈ s.sorted, m.Fits ∧ s.Lists m := by
      rw [hinOrder]
      exact fun m hm => ⟨(hms m hm).1, hcalls.2 m (hmappings.symm ▸ hm)⟩
    rw [decodeMappings_encodeMappings hwithin (by decide) hlists (hinOrder.symm ▸ hsorted),
      hinOrder]
    refine congrArg some ((List.map_congr_left fun m hm => ?_).trans (List.map_id _))
    exact if_pos (hms m ((List.destutter_sublist _ ms).mem hm)).2.1

end SourceMap

/-! ## Configurations -/

namespace Config

/-- No setting of an accepted configuration is negative. -/
theorem nonneg_of_fault? {c : Config} (h : c.fault? = none) :
    0 ≤ c.indentSize ∧ 0 ≤ c.originalStartLine ∧ 0 ≤ c.originalStartColumn
      ∧ 0 ≤ c.generatedStartLine := by
  have hall : ∀ entry ∈ c.counts, 0 ≤ entry.2 := by
    intro entry hentry
    have hnone := List.find?_eq_none.mp (Option.map_eq_none_iff.mp h) entry hentry
    exact Int.not_lt.mp fun hlt => hnone (decide_eq_true hlt)
  simpa [counts] using hall

/-- The offsets leave room for a source and for what is written for it. -/
structure LeavesRoom (c : Config) (source code : Bytes) : Prop where
  originalLine : c.originalStartLine + source.length < 2 ^ 62
  originalColumn : c.originalStartColumn + source.length < 2 ^ 62
  generatedLine : c.generatedStartLine + code.length < 2 ^ 63
  output : code.length < 2 ^ 62

end Config

/-- A place in an output and a position in an input of the given lengths. -/
structure LiesWithin (output input : Nat) (x : Place × Position) : Prop where
  placeLine : 1 ≤ x.1.line
  placeColumn : 0 ≤ x.1.column
  placeSum : x.1.line + x.1.column ≤ 1 + output
  line : 1 ≤ x.2.line
  column : 0 ≤ x.2.column
  sum : x.2.line + x.2.column ≤ 1 + input

/-- The offsets leave room in a word for an input and an output of these lengths. -/
structure Options.Room (o : Options) (input output : Nat) : Prop where
  originalLine : o.originalStartLine + input < 2 ^ 63
  originalColumn : o.originalStartColumn + input < 2 ^ 63
  generatedLine : o.generatedStartLine + output < 2 ^ 63

/-- Where there is room, offsets are added without losing anything. -/
theorem Options.Room.mapping_eq {o : Options} {input output : Nat} {x : Place × Position}
    (h : o.Room input output) (hx : LiesWithin output input x) :
    ⟨o.generatedPlace x.1, o.originalPlace x.2, o.url, []⟩ = o.exactMapping x := by
  obtain ⟨hlines, hcolumns, hgenerated⟩ := h
  obtain ⟨hgl, hgc, hgsum, hol, hoc, hosum⟩ := hx
  have hplace : o.generatedPlace x.1 = o.exactGenerated x.1 :=
    generatedPlace_eq_exact (by omega) (by omega)
  have hposition : o.originalPlace x.2 = o.exactOriginal x.2 :=
    originalPlace_eq_exact (by omega) hoc (by omega) (by omega)
  rw [hplace, hposition]
  rfl

section Room

variable {c : Config} {indent source code : Bytes} {x : Place × Position}

theorem Config.LeavesRoom.room (h : c.LeavesRoom source code) :
    (c.optionsWith indent).Room source.length code.length := by
  obtain ⟨hlines, hcolumns, hgenerated, -⟩ := h
  refine ⟨?_, ?_, hgenerated⟩
  · show c.originalStartLine + _ < _
    omega
  · show c.originalStartColumn + _ < _
    omega

/-- And the mapping stays in the range of what is written. -/
theorem fits_exactMapping (hc : c.fault? = none) (hroom : c.LeavesRoom source code)
    (hx : LiesWithin code.length source.length x) :
    ((c.optionsWith indent).exactMapping x).Fits
      ∧ ((c.optionsWith indent).exactMapping x).hasOriginal = true := by
  obtain ⟨-, hline, hcolumn, hstart⟩ := Config.nonneg_of_fault? hc
  obtain ⟨hlines, hcolumns, hgenerated, houtput⟩ := hroom
  obtain ⟨hgl, hgc, hgsum, hol, hoc, hosum⟩ := hx
  have hgeneratedLine : 1 ≤ Options.exactLine c.generatedStartLine x.1.line := by
    unfold Options.exactLine
    split <;> omega
  have horiginalLine : 1 ≤ Options.exactLine c.originalStartLine x.2.line
      ∧ Options.exactLine c.originalStartLine x.2.line ≤ 2 ^ 62 := by
    unfold Options.exactLine
    split <;> omega
  have hpositive := Int.le_trans Int.one_nonneg horiginalLine.1
  refine ⟨⟨hgeneratedLine, ⟨hgc, show x.1.column < _ by omega⟩, ⟨hpositive, horiginalLine.2⟩, ?_⟩,
    decide_eq_true horiginalLine.1⟩
  dsimp only [Options.exactMapping, Options.exactOriginal, Config.optionsWith]
  split <;> omega

end Room

section Format

variable {c : Config} {o : Options} {source : Bytes} {tokens : List Token}

/-- The places of texts in the output of the formatter, with the starts of their tokens. -/
def placedTokens (o : Options) (tokens : List Token) : List (Place × Position) :=
  Layout.placed (Place.behind ⟨1, 0⟩ (if o.leadingNewline then [0x0A] else []))
    (Layout.emissions o.indent tokens)

theorem liesWithin_placedTokens (h : tokenize source = .ok tokens) :
    ∀ x ∈ placedTokens o tokens,
      LiesWithin (formatTokens o tokens).code.length source.length x := by
  intro x hx
  have hlead := Place.onward_behind (p := ⟨1, 0⟩) (Int.le_refl 0)
    (if o.leadingNewline then [0x0A] else [])
  obtain ⟨honward, -⟩ := Layout.onward_placed (Layout.emissions o.indent tokens) hlead.column
  have hplace : Place.Onward (formatTokens o tokens).code.length ⟨1, 0⟩ x.1 :=
    (hlead.trans (honward x hx)).mono (Nat.le_of_eq List.length_append.symm)
  have hle := Place.le_iff.mp hplace.le
  have hnear := hplace.near
  dsimp only at hle hnear
  rw [placedTokens, Layout.emissions_of_lexedSource o.indent (tokenize_lexed h)] at hx
  -- the original is the start of a token, which the scanner keeps within the source
  obtain ⟨t, ht, hstart⟩ := Layout.original_mem_placed tokens x hx
  have hshows := (tokenize_covers h t ht).1
  obtain ⟨hline, hoffset⟩ := hshows.within
  obtain ⟨-, hcolumn, hsum⟩ := hshows.bounded
  refine ⟨by omega, hplace.column, by omega, ?_, ?_, ?_⟩
  all_goals
    rw [hstart]
    omega

theorem pairwise_placedTokens (o : Options) (tokens : List Token) :
    (placedTokens o tokens).Pairwise fun x y => x.1.le y.1 :=
  (Layout.onward_placed _ (Place.onward_behind (Int.le_refl 0) _).column).2

/-- **With room for source and output, the arithmetic is that of integers.** Formatting with the
options of an accepted configuration gives the mappings of unbounded offsets; the source map is
made of numbers that the loop over a word ends for, and reads back as the mappings, without those
equal to the one before. -/
theorem format_withinWords (file : Bytes) (hc : c.fault? = none) (ho : c.options? = some o)
    (h : tokenize source = .ok tokens)
    (hroom : c.LeavesRoom source (formatTokens o tokens).code) :
    ∃ f, format o source = .ok f
      ∧ f.mappings = (placedTokens o tokens).map o.exactMapping
      ∧ (∀ values, .fields values ∈ (f.sourceMap file).pieces → ∀ v ∈ values,
        (-2 ^ 62 < v ∧ v < 2 ^ 62) ∧ Vlq.Loop (Vlq.shifted v) (Vlq.encode v))
      ∧ decodeMappings (f.sourceMap file).sources (f.sourceMap file).names
          (f.sourceMap file).encodeMappings = some (f.mappings.destutter (· ≠ ·)) := by
  obtain ⟨indent, -, rfl⟩ := Option.map_eq_some_iff.mp ho
  have hwithin := liesWithin_placedTokens (o := c.optionsWith indent) h
  have hexact : (formatTokens (c.optionsWith indent) tokens).mappings =
      (placedTokens (c.optionsWith indent) tokens).map (c.optionsWith indent).exactMapping :=
    (Layout.mappingsFrom_eq_placed _ _ _).trans
      (List.map_congr_left fun x hx => hroom.room.mapping_eq (hwithin x hx))
  have hfits : ∀ m ∈ (placedTokens (c.optionsWith indent) tokens).map
      (c.optionsWith indent).exactMapping, m.Fits ∧ m.hasOriginal = true
        ∧ m.source = (c.optionsWith indent).url ∧ m.name = [] := by
    intro m hm
    obtain ⟨x, hx, rfl⟩ := List.mem_map.mp hm
    obtain ⟨hfits, horiginal⟩ := fits_exactMapping hc hroom (hwithin x hx)
    exact ⟨hfits, horiginal, rfl, rfl⟩
  have hsorted : ((placedTokens (c.optionsWith indent) tokens).map
      (c.optionsWith indent).exactMapping).Pairwise fun a b => a.generated.le b.generated :=
    List.pairwise_map.mpr ((pairwise_placedTokens _ tokens).imp fun h =>
      Options.exactGenerated_le h)
  -- the mappings of the source map are the exact ones, so what holds of these carries over
  rw [← hexact] at hfits hsorted
  obtain ⟨hnumbers, hdecode⟩ := SourceMap.addAll_exact hfits hsorted
    (show (formatTokens (c.optionsWith indent) tokens).sourceMap file = _ from rfl)
  refine ⟨formatTokens (c.optionsWith indent) tokens, by rw [format, h], hexact, ?_, hdecode⟩
  intro values hvalues v hv
  have hbounds := hnumbers values hvalues v hv
  exact ⟨hbounds, Vlq.loop_encode hbounds⟩

end Format

/-- The largest offsets that leave room for the source `a`. -/
def largestOffsets : Config :=
  { Config.standard with
    originalStartLine := 2 ^ 62 - 2, originalStartColumn := 2 ^ 62 - 2
    generatedStartLine := 2 ^ 63 - 3 }

theorem format_withinWords_largest :
    ∃ f, format (largestOffsets.optionsWith (utf8 "  ")) (utf8 "a") = .ok f
      ∧ f.mappings = (placedTokens (largestOffsets.optionsWith (utf8 "  "))
          [⟨.name, utf8 "a", ⟨1, 0, 0⟩, ⟨1, 1, 1⟩⟩, ⟨.eof, [], ⟨1, 1, 1⟩, ⟨1, 1, 1⟩⟩]).map
          (largestOffsets.optionsWith (utf8 "  ")).exactMapping
      ∧ (∀ values, .fields values ∈ (f.sourceMap []).pieces → ∀ v ∈ values,
        (-2 ^ 62 < v ∧ v < 2 ^ 62) ∧ Vlq.Loop (Vlq.shifted v) (Vlq.encode v))
      ∧ decodeMappings (f.sourceMap []).sources (f.sourceMap []).names
          (f.sourceMap []).encodeMappings = some (f.mappings.destutter (· ≠ ·)) :=
  format_withinWords (c := largestOffsets) [] (by decide) (by decide) (by decide +kernel)
    ⟨by decide, by decide, by decide +kernel, by decide +kernel⟩

/-- The largest start line. -/
def lastStartLine : Config := { Config.standard with originalStartLine := 2 ^ 63 - 1 }

/-- A start line that takes one bit more than can be written. -/
def unwrittenStartLine : Config := { Config.standard with originalStartLine := 2 ^ 62 + 1 }

/-- **Accepted offsets can be too large.** With the largest start line, the second line of a source
gets the lowest number of all; and a start line beyond half of that is a number that the loop over
a word never ends for. -/
theorem format_not_withinWords :
    (lastStartLine.fault? = none
      ∧ lastStartLine.options? = some (lastStartLine.optionsWith (utf8 "  "))
      ∧ (format (lastStartLine.optionsWith (utf8 "  ")) (utf8 "\na")).toOption.map (·.mappings) =
        some [⟨⟨1, 0⟩, ⟨-2 ^ 63, 0⟩, [], []⟩])
    ∧ unwrittenStartLine.fault? = none
      ∧ unwrittenStartLine.options? = some (unwrittenStartLine.optionsWith (utf8 "  "))
      ∧ (format (unwrittenStartLine.optionsWith (utf8 "  ")) (utf8 "a")).toOption.map
          (fun f => (f.sourceMap []).pieces) = some [.fields [0, 0, 2 ^ 62, 0]]
      ∧ ¬ ∃ bytes, Vlq.Loop (Vlq.shifted (2 ^ 62)) bytes := by
  refine ⟨⟨by decide, by decide, by decide +kernel⟩, by decide, by decide, by decide +kernel, ?_⟩
  rw [Vlq.loop_ends_iff (by decide)]
  decide

end ScriptTidy
