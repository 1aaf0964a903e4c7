import ScriptTidy.Proofs.SourceMap.Vlq

/-!
# A reader of source maps

The reader follows the version 3 format to the letter: lines between semicolons, segments
between commas, one, four or five numbers a segment, each the difference to the one before it.
Anything else is refused, and so is an index outside of its table.

The reader works on whole lines, while a writer goes from mapping to mapping. `ReadsOn` puts the
reader behind a mapping, in the midst of a line: it splits what follows into the rest of the line
and the lines below. Its rules are those of a writer: nothing follows, another segment follows on
the line, or a segment on a line further down.
-/

namespace ScriptTidy

/-! ## The reader -/

/-- What the numbers of the next segment are relative to, the generated column apart. The
original line counts from zero. -/
structure Running where
  source : Int := 0
  line : Int := 0
  column : Int := 0
  name : Int := 0
deriving DecidableEq, Repr

/-- The entry of a table at an index. -/
def itemAt? (table : List Bytes) (i : Int) : Option Bytes :=
  if i < 0 then none else table[i.toNat]?

/-- The running values behind the differences of source, line and column. -/
def Running.moveBy (r : Running) (source line column : Int) : Running :=
  { r with source := r.source + source, line := r.line + line, column := r.column + column }

/-- The running values behind the difference of the name. -/
def Running.renameBy (r : Running) (name : Int) : Running := { r with name := r.name + name }

section Reader

variable (sources names : List Bytes)

/-- The mapping that a segment stands for, whose generated column is relative to that of `p`. -/
def readSegment (p : Place) (r : Running) : List Int → Option (Mapping × Running)
  | [c] => some (⟨⟨p.line, p.column + c⟩, ⟨0, 0⟩, [], []⟩, r)
  | [c, s, l, o] =>
    let r := r.moveBy s l o
    (itemAt? sources r.source).map fun source =>
      (⟨⟨p.line, p.column + c⟩, ⟨r.line + 1, r.column⟩, source, []⟩, r)
  | [c, s, l, o, n] =>
    let r := (r.moveBy s l o).renameBy n
    (itemAt? sources r.source).bind fun source => (itemAt? names r.name).map fun name =>
      (⟨⟨p.line, p.column + c⟩, ⟨r.line + 1, r.column⟩, source, name⟩, r)
  | _ => none

/-- The mappings of the segments of a line. -/
def readSegments (p : Place) (r : Running) : List Bytes → Option (List Mapping × Running)
  | [] => some ([], r)
  | text :: rest =>
    match (Vlq.fields? text).bind (readSegment sources names p r) with
    | none => none
    | some (m, r) => (readSegments m.generated r rest).map fun (ms, r) => (m :: ms, r)

/-- The mappings of a line. -/
def readLine (line : Int) (r : Running) (text : Bytes) : Option (List Mapping × Running) :=
  if text = [] then some ([], r)
  else readSegments sources names ⟨line, 0⟩ r (Bytes.splitOn 0x2C text)

/-- The mappings of lines, the first of which has the given number. -/
def readLines (line : Int) (r : Running) : List Bytes → Option (List Mapping)
  | [] => some []
  | text :: rest =>
    match readLine sources names line r text with
    | none => none
    | some (ms, r) => (readLines (line + 1) r rest).map (ms ++ ·)

/-- The mappings that a text stands for, with the tables that its numbers point into. -/
def decodeMappings (text : Bytes) : Option (List Mapping) :=
  readLines sources names 1 {} (Bytes.splitOn 0x3B text)

end Reader

/-! ## Lines and segments -/

/-- A text without separators goes in front of the first piece. -/
theorem splitOn_append {sep : UInt8} {piece text first : Bytes} {rest : List Bytes}
    (h : sep ∉ piece) (htext : Bytes.splitOn sep text = first :: rest) :
    Bytes.splitOn sep (piece ++ text) = (piece ++ first) :: rest := by
  induction piece with
  | nil => exact htext
  | cons b piece ih =>
    have hb : b ≠ sep := fun he => h (he ▸ List.mem_cons_self)
    have hrest := ih fun hm => h (List.mem_cons_of_mem b hm)
    rw [List.cons_append, Bytes.splitOn, if_neg hb, hrest]
    rfl

theorem splitOn_sep_cons (sep : UInt8) (text : Bytes) :
    Bytes.splitOn sep (sep :: text) = [] :: Bytes.splitOn sep text := if_pos rfl

section Reader

variable {sources names : List Bytes} {p : Place} {r r' : Running} {m : Mapping}
  {text more : Bytes} {ms : List Mapping}

/-- The mappings of the rest of a line behind a segment. -/
def readTail (sources names : List Bytes) (p : Place) (r : Running) :
    Bytes → Option (List Mapping × Running)
  | [] => some ([], r)
  | b :: text => if b = 0x2C then readSegments sources names p r (Bytes.splitOn 0x2C text) else none

/-- The text of a segment that stands for `m` behind a mapping at `p`. -/
structure SegmentText (sources names : List Bytes) (p : Place) (r : Running) (text : Bytes)
    (m : Mapping) (r' : Running) : Prop where
  ne_nil : text ≠ []
  no_comma : 0x2C ∉ text
  no_semicolon : 0x3B ∉ text
  line : m.generated.line = p.line
  reads : (Vlq.fields? text).bind (readSegment sources names p r) = some (m, r')

/-- Behind a mapping at `p` the reader finds the mappings `ms`: some on the rest of the line,
some on the lines below. -/
def ReadsOn (sources names : List Bytes) (p : Place) (r : Running) (text : Bytes)
    (ms : List Mapping) : Prop :=
  ∃ first rest here below r', Bytes.splitOn 0x3B text = first :: rest
    ∧ readTail sources names p r first = some (here, r')
    ∧ readLines sources names (p.line + 1) r' rest = some below
    ∧ ms = here ++ below

theorem readsOn_nil (p : Place) (r : Running) : ReadsOn sources names p r [] [] :=
  ⟨[], [], [], [], r, rfl, rfl, rfl, rfl⟩

/-- A segment in front of the rest of its line. -/
theorem readSegments_splitOn {first : Bytes} {here : List Mapping} {r'' : Running}
    (h : SegmentText sources names p r text m r')
    (hfirst : readTail sources names m.generated r' first = some (here, r'')) :
    readSegments sources names p r (Bytes.splitOn 0x2C (text ++ first)) =
      some (m :: here, r'') := by
  have hstep : ∀ rest, readSegments sources names m.generated r' rest = some (here, r'') →
      readSegments sources names p r (text :: rest) = some (m :: here, r'') := by
    intro rest hrest
    rw [readSegments, h.reads]
    dsimp only
    rw [hrest]
    rfl
  cases first with
  | nil =>
    rw [splitOn_append h.no_comma (rfl : Bytes.splitOn 0x2C [] = [[]]), List.append_nil]
    exact hstep [] hfirst
  | cons b rest =>
    by_cases hb : b = 0x2C
    · subst hb
      rw [splitOn_append h.no_comma (splitOn_sep_cons 0x2C rest), List.append_nil]
      exact hstep _ hfirst
    · rw [readTail, if_neg hb] at hfirst
      cases hfirst

/-- Another segment on the line. -/
theorem ReadsOn.comma (h : SegmentText sources names p r text m r')
    (hmore : ReadsOn sources names m.generated r' more ms) :
    ReadsOn sources names p r (0x2C :: (text ++ more)) (m :: ms) := by
  obtain ⟨first, rest, here, below, r'', hsplit, hfirst, hrest, rfl⟩ := hmore
  have hcomma : (0x3B : UInt8) ∉ 0x2C :: text := by
    intro hmem
    rcases List.mem_cons.mp hmem with hmem | hmem
    · exact absurd hmem (by decide)
    · exact h.no_semicolon hmem
  refine ⟨0x2C :: (text ++ first), rest, m :: here, below, r'', ?_, ?_, ?_, rfl⟩
  · exact splitOn_append hcomma hsplit
  · rw [readTail, if_pos rfl]
    exact readSegments_splitOn h hfirst
  · rw [← h.line]
    exact hrest

/-- The first segment of a line. -/
theorem readLines_segment {line : Int} (h : SegmentText sources names ⟨line, 0⟩ r text m r')
    (hmore : ReadsOn sources names m.generated r' more ms) :
    readLines sources names line r (Bytes.splitOn 0x3B (text ++ more)) = some (m :: ms) := by
  obtain ⟨first, rest, here, below, r'', hsplit, hfirst, hrest, rfl⟩ := hmore
  have hne : text ++ first ≠ [] := fun he => h.ne_nil (List.append_eq_nil_iff.mp he).1
  have hline : m.generated.line = line := h.line
  rw [splitOn_append h.no_semicolon hsplit, readLines, readLine, if_neg hne,
    readSegments_splitOn h hfirst]
  dsimp only
  rw [← hline, hrest]
  rfl

/-- Lines without mappings are passed over. -/
theorem readLines_replicate (line : Int) (r : Running) (text : Bytes) (count : Nat) :
    readLines sources names line r (Bytes.splitOn 0x3B (List.replicate count 0x3B ++ text))
      = readLines sources names (line + count) r (Bytes.splitOn 0x3B text) := by
  induction count generalizing line with
  | zero =>
    rw [Int.natCast_zero, Int.add_zero]
    rfl
  | succ count ih =>
    have hline : line + ((count + 1 : Nat) : Int) = line + 1 + (count : Int) := by omega
    rw [List.replicate_succ, List.cons_append, splitOn_sep_cons, readLines, hline, ← ih (line + 1)]
    show (readLines sources names (line + 1) r _).map ([] ++ ·) = _
    exact Option.map_id'

/-- The first segment of a line further down. -/
theorem ReadsOn.lines {line : Int} {count : Nat} (hline : line = p.line + (count + 1 : Nat))
    (h : SegmentText sources names ⟨line, 0⟩ r text m r')
    (hmore : ReadsOn sources names m.generated r' more ms) :
    ReadsOn sources names p r (List.replicate (count + 1) 0x3B ++ (text ++ more)) (m :: ms) := by
  have hsum : p.line + 1 + (count : Int) = line := by omega
  refine ⟨[], Bytes.splitOn 0x3B (List.replicate count 0x3B ++ (text ++ more)), [], m :: ms, r,
    ?_, rfl, ?_, rfl⟩
  · rw [List.replicate_succ, List.cons_append]
    exact splitOn_sep_cons 0x3B _
  · rw [readLines_replicate, hsum]
    exact readLines_segment h hmore

end Reader

end ScriptTidy
