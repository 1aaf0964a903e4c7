import ScriptTidy.Json.Basic
import ScriptTidy.SourceMap.Basic
import ScriptTidy.SourceMap.Vlq

/-!
# The version 3 format of source maps

Mappings are sorted by generated place and written as differences to what came before. Lines
of generated text are separated by semicolons and the mappings of a line by commas. A mapping
is written as a list of numbers: its generated column alone, or with the source, the original
line and the original column, and with the name if there is one. The generated column starts
over on each line; all else runs through.

A number that the loop over its groups never ends for keeps the text from being finished.
-/

namespace ScriptTidy

/-- One part of the text of the mappings. -/
inductive MapPiece
  /-- The end of a line of generated text. -/
  | lineEnd
  /-- The separator between two mappings of a line. -/
  | comma
  /-- The numbers of a mapping. -/
  | fields (values : List Int)
deriving DecidableEq, Repr

/-- The text of a part. -/
def MapPiece.render : MapPiece → Bytes
  | lineEnd => [0x3B]
  | comma => [0x2C]
  | fields values => values.flatMap Vlq.encode

/-- Whether writing a part comes to an end. -/
def MapPiece.ends : MapPiece → Bool
  | fields values => values.all Vlq.ends
  | _ => true

/-- What the next mapping is written relative to. The original line counts from zero. -/
structure MapState where
  previous : Option Mapping := none
  generatedLine : Int := 1
  generatedColumn : Int := 0
  source : Int := 0
  originalLine : Int := 0
  originalColumn : Int := 0
  name : Int := 0

open JsonValue (field)

namespace SourceMap

/-- The mappings in the order they are written: by generated place, those of one place in the
order they were added. -/
def sorted (s : SourceMap) : List Mapping :=
  s.mappings.toList.mergeSort fun a b => a.generated.le b.generated

/-- The place of a name in a table. -/
def indexIn (table : List Bytes) (x : Bytes) : Int :=
  let i := table.idxOf x
  if i < table.length then i else 0

/-- The numbers of a mapping and what the next one is written relative to. -/
def fieldsOf (s : SourceMap) (st : MapState) (m : Mapping) : List Int × MapState :=
  let column := wrap64 (m.generated.column - st.generatedColumn)
  let st := { st with previous := some m, generatedColumn := m.generated.column }
  if m.hasOriginal then
    let source := indexIn s.sources m.source
    let values := [column, source - st.source,
      wrap64 (m.original.line - 1 - st.originalLine),
      wrap64 (m.original.column - st.originalColumn)]
    let st := { st with
      source := source
      originalLine := m.original.line - 1
      originalColumn := m.original.column }
    if m.name.isEmpty then (values, st)
    else
      let name := indexIn s.names m.name
      (values ++ [name - st.name], { st with name := name })
  else ([column], st)

/-- The parts written for a mapping. A mapping equal to the one before it on its line is
dropped. -/
def piecesOf (s : SourceMap) (st : MapState) (m : Mapping) : List MapPiece × MapState :=
  if m.generated.line ≠ st.generatedLine then
    let skipped := (m.generated.line - st.generatedLine).toNat
    let st := { st with
      generatedColumn := 0
      generatedLine := if st.generatedLine < m.generated.line then m.generated.line
        else st.generatedLine }
    let (values, st) := s.fieldsOf st m
    (List.replicate skipped .lineEnd ++ [.fields values], st)
  else if st.previous = some m then ([], st)
  else
    let comma := if st.previous.isSome then [MapPiece.comma] else []
    let (values, st) := s.fieldsOf st m
    (comma ++ [.fields values], st)

/-- The parts written for a list of mappings. -/
def piecesFrom (s : SourceMap) : MapState → List Mapping → List MapPiece
  | _, [] => []
  | st, m :: ms =>
    let (pieces, st) := s.piecesOf st m
    pieces ++ piecesFrom s st ms

/-- The parts of the text of the mappings. -/
def pieces (s : SourceMap) : List MapPiece := s.piecesFrom {} s.sorted

/-- Whether writing the mappings comes to an end. -/
def ends (s : SourceMap) : Bool := s.pieces.all MapPiece.ends

/-- The text of the mappings, which is what is written if that comes to an end. -/
def encodeMappings (s : SourceMap) : Bytes := s.pieces.flatMap MapPiece.render

/-- The map as a JSON value. Empty names and contents are left out. -/
def toJson (s : SourceMap) : JsonValue :=
  let optional := fun (key : String) (text : Bytes) =>
    if text.isEmpty then [] else [field key (.str text)]
  let contents := s.sourcesContent
  .obj ([field "version" (.nat 3)]
    ++ optional "file" s.file
    ++ optional "sourceRoot" s.sourceRoot
    ++ [field "sources" (.arr (s.sources.map .str)),
        field "names" (.arr (s.names.map .str)),
        field "mappings" (.str s.encodeMappings)]
    ++ if contents.isEmpty then [] else
        [field "sourcesContent" (.arr (contents.map fun
          | some text => .str text
          | none => .null))])

/-- The text of the map. -/
def render (s : SourceMap) : Bytes := s.toJson.render

/-- The text of the map, unless writing its mappings never comes to an end. -/
def render? (s : SourceMap) : Option Bytes := if s.ends then some s.render else none

end SourceMap

end ScriptTidy
