import ScriptTidy.Failure
import ScriptTidy.Json.Read
import ScriptTidy.SourceMap.Encode
import ScriptTidy.Text.Integer
import ScriptTidy.Text.Url

/-!
# Looking up original places

The place that a place of generated text came from is looked up in the written form of a map.
The reader of that form keeps numbers in 32-bit words. It reads a segment between any two
separators, so that a line without mappings repeats what came before it, and mappings that no
separator divides add up. It drops segments that came from the very start of a source. Where
the reader finds nothing, the mappings themselves are asked for the last one before the place
on its line.
-/

namespace ScriptTidy

/-- The number modulo `2^32`, taken between `-2^31` and `2^31 - 1`. -/
def wrap32 (n : Int) : Int := n.bmod 0x100000000

namespace Vlq

/-- Reading a number takes at least one byte. -/
theorem decodeNat?_length_lt {text rest : Bytes} {n : Nat}
    (h : decodeNat? text = some (n, rest)) : rest.length < text.length := by
  induction text generalizing n rest with
  | nil => simp [decodeNat?] at h
  | cons b t ih =>
    unfold decodeNat? at h
    split at h
    · simp at h
    · next d _ =>
      split at h
      · simp only [Option.some.injEq, Prod.mk.injEq] at h
        obtain ⟨_, rfl⟩ := h
        simp
      · split at h
        · next high r heq =>
          simp only [Option.some.injEq, Prod.mk.injEq] at h
          obtain ⟨_, rfl⟩ := h
          have := ih heq
          simp only [List.length_cons]
          omega
        · simp at h

/-- The signed number behind one with the sign in its lowest bit, in 32-bit words. -/
def unfold32 (n : Nat) : Int :=
  let word := wrap32 n
  if word % 2 = 1 then -(word / 2) else word / 2

/-- The numbers of a segment, in 32-bit words. -/
def fields32 (text : Bytes) : List Int :=
  match h : decodeNat? text with
  | none => []
  | some (n, rest) =>
    have : rest.length < text.length := decodeNat?_length_lt h
    unfold32 n :: fields32 rest
termination_by text.length

end Vlq

/-- A place of generated text with the place that it came from. -/
structure Segment where
  generated : Place := ⟨1, 0⟩
  /-- The place of the source in the table of sources. -/
  source : Int := 0
  original : Place := ⟨1, 0⟩
deriving DecidableEq, Repr

namespace Segment

/-- The segment at the given differences from `s`: those of the generated column, the source,
the original line and the original column. -/
def moveBy (s : Segment) (column source line originalColumn : Int) : Segment :=
  { generated := ⟨s.generated.line, wrap32 (s.generated.column + column)⟩
    source := wrap32 (s.source + source)
    original := ⟨wrap32 (s.original.line + line), wrap32 (s.original.column + originalColumn)⟩ }

/-- The segment that follows on the same line, given the numbers of the differences. A fifth
number belongs to the name; those after it start over with the generated column, and those that
are missing are zero. -/
def advance (s : Segment) : List Int → Segment
  | [] => s
  | column :: source :: line :: originalColumn :: _ :: rest =>
    (s.moveBy column source line originalColumn).advance rest
  | fields => s.moveBy (fields.getD 0 0) (fields.getD 1 0) (fields.getD 2 0) (fields.getD 3 0)

/-- The segment that the next line starts with. -/
def nextLine (s : Segment) : Segment := { s with generated := ⟨s.generated.line + 1, 0⟩ }

/-- Whether the segment came from the very start of a source. -/
def isAtStart (s : Segment) : Bool := s.original == ⟨1, 0⟩

/-- The segments of the pieces of a line, after the segment `s`, and the last of them. -/
def ofLine (s : Segment) : List Bytes → List Segment × Segment
  | [] => ([], s)
  | piece :: rest =>
    let s := s.advance (Vlq.fields32 piece)
    let (more, last) := ofLine s rest
    (s :: more, last)

/-- The segments of lines, after the segment `s`. -/
def ofLines (s : Segment) : List Bytes → List Segment
  | [] => []
  | line :: rest =>
    let (segments, last) := s.ofLine (Bytes.splitOn 0x2C line)
    segments ++ last.nextLine.ofLines rest

/-- The segments that are kept of the text of the mappings. -/
def read (text : Bytes) : List Segment :=
  (ofLines {} (Bytes.splitOn 0x3B text)).filter fun s => !s.isAtStart

/-- The segment for a place: the one that starts there, or else the last one before it. There
is none for a place after all segments. -/
def find? (segments : List Segment) (p : Place) : Option Segment :=
  let before := segments.takeWhile fun s => !p.le s.generated
  match segments.drop before.length with
  | [] => none
  | s :: _ => if s.generated = p then some s else before.getLast?

end Segment

/-- The last of the mappings on a line that start at or before a column; of those that start
furthest right, the last. -/
def lastMappingBefore (mappings : List Mapping) (p : Place) : Option Mapping :=
  (mappings.filter fun m => m.generated.line == p.line && m.generated.column ≤ p.column).foldl
    (fun best m => match best with
      | none => some m
      | some b => if b.generated.column ≤ m.generated.column then some m else some b)
    none

/-- The name of a source as it is shown, if the map lies at `file`. A rooted path and an
absolute URL stand for themselves; all else is relative to the URL of the map if it has one. -/
def sourceName (file : Url.Reference) (source : Bytes) : Bytes :=
  if Path.isRooted source || Url.isAbsolute source || file.scheme.isEmpty then source
  else ({ file with path := Path.join Path.dot source } : Url.Reference).text

/-- A source with a place in it. -/
structure Origin where
  source : Bytes
  place : Place
deriving DecidableEq, Repr

/-- The name at a place of a table of sources. Before the table all names are empty; after it
there are none. -/
def sourceAt? (names : List Bytes) (i : Int) : Option Bytes :=
  if i < 0 then some [] else names[i.toNat]?

/-- What a reader of the written form of a map says about a place. -/
inductive Reading
  /-- The map cannot be read. -/
  | fault (message : Bytes)
  /-- There is no segment for the place. -/
  | absent
  /-- The reader breaks off. -/
  | crash
  | found (o : Origin)

/-- What the reader takes from the written form of a map. -/
structure WrittenMap where
  sources : List Bytes
  mappings : Bytes

namespace WrittenMap

/-- The value of a field of an object. -/
def field? (v : JsonValue) (name : String) : Option JsonValue :=
  match v with
  | .obj fields => fields.lookup (utf8 name)
  | _ => none

/-- The text that a value is, empty if it is no text. -/
def textOf : Option JsonValue → Bytes
  | some (.str text) => text
  | _ => []

/-- The map that a JSON value describes. What is missing is empty. -/
def ofJson (v : JsonValue) : WrittenMap :=
  { sources := match field? v "sources" with
      | some (.arr items) => items.map fun item => textOf (some item)
      | _ => []
    mappings := textOf (field? v "mappings") }

/-- What the map, which lies at `file`, says about a place. The segment for the place may have a
source that lies after the table of sources. -/
def origin (m : WrittenMap) (file : Url.Reference) (p : Place) : Reading :=
  match Segment.find? (Segment.read m.mappings) p with
  | none => .absent
  | some segment =>
    match sourceAt? (m.sources.map (sourceName file)) segment.source with
    | some source => .found ⟨source, segment.original⟩
    | none => .crash

end WrittenMap

/-- What the text of a map, which lies at `file`, says about a place. -/
def readOrigin (file text : Bytes) (p : Place) : Reading :=
  match JsonValue.read text, Url.read file with
  | .error f, _ => .fault f.message
  | .ok _, .error (part, f) => .fault (Url.faultMessage part f)
  | .ok v, .ok file =>
    let m := WrittenMap.ofJson v
    if m.mappings.isEmpty then .fault (utf8 "sourcemap: mappings are empty") else m.origin file p

namespace SourceMap

/-- Where a place of the generated text came from, by what a reader of the written form says. There
is no answer if the reader breaks off. -/
def originBy (s : SourceMap) (p : Place) : Reading → Option (Except Failure Origin)
  | .fault message => some (.error (.within (utf8 "decoding source map") (.plain message)))
  | .crash => none
  | .found o => some (.ok o)
  | .absent =>
    match lastMappingBefore s.mappings.toList p with
    | some m => some (.ok ⟨m.source, m.original⟩)
    | none =>
      some (.error (.plain (utf8 "no mapping for " ++ intDecimal p.line ++ [0x3A]
        ++ intDecimal p.column)))

end SourceMap

/-- Reads a place of generated text that is written as `LINE:COL`. -/
def Place.parse (text : Bytes) : Except Failure Place :=
  match Bytes.splitOn 0x3A text with
  | [line, column] =>
    let line := (readInteger line).toOption.filter (1 ≤ ·)
    let column := (readInteger column).toOption.filter (0 ≤ ·)
    match line, column with
    | some l, some c => .ok ⟨l, c⟩
    | none, _ => .error (.plain (utf8 "invalid line in " ++ Quoted.quote text))
    | some _, none => .error (.plain (utf8 "invalid column in " ++ Quoted.quote text))
  | _ => .error (.plain (utf8 "expected LINE:COL, got " ++ Quoted.quote text))

end ScriptTidy
