import ScriptTidy.Text.Decimal

/-!
# Source maps

A mapping ties a place in generated text to the place in a source that it came from. A source
map collects mappings, the names of the sources and identifiers they use, each listed once in
order of first use, and the contents of sources.
-/

namespace ScriptTidy

/-- A place in a file: line from one, column from zero. -/
structure Place where
  line : Int
  column : Int
deriving DecidableEq, Repr

/-- The order of places in a file. -/
def Place.le (a b : Place) : Bool := a.line < b.line || (a.line == b.line && a.column ≤ b.column)

/-- Where a place in generated text came from. If the line of `original` is not positive, only
the generated place is marked. -/
structure Mapping where
  generated : Place
  original : Place
  source : Bytes
  name : Bytes
deriving DecidableEq, Repr

/-- Whether the mapping says where the text came from. -/
def Mapping.hasOriginal (m : Mapping) : Bool := 0 < m.original.line

/-- The list with `x` at its end, unless it is there already. -/
def addOnce (x : Bytes) (xs : List Bytes) : List Bytes := if xs.contains x then xs else xs ++ [x]

/-- A source map under construction. -/
structure SourceMap where
  /-- The name of the generated file. -/
  file : Bytes
  /-- What readers put in front of every source name. -/
  sourceRoot : Bytes := []
  /-- The mappings, in the order they were added. -/
  mappings : Array Mapping := #[]
  /-- The source names, in order of first use. -/
  sources : List Bytes := []
  /-- The identifiers, in order of first use. -/
  names : List Bytes := []
  /-- The contents of sources, the latest first. -/
  contents : List (Bytes × Bytes) := []

namespace SourceMap

/-- Adds a mapping. Its source and its name are listed if it has an original place. -/
def add (s : SourceMap) (m : Mapping) : SourceMap :=
  let t := { s with mappings := s.mappings.push m }
  if m.hasOriginal then
    { t with
      sources := addOnce m.source s.sources
      names := if m.name.isEmpty then s.names else addOnce m.name s.names }
  else t

/-- Adds mappings in order. -/
def addAll (s : SourceMap) (ms : List Mapping) : SourceMap := ms.foldl add s

/-- Embeds the contents of a source. -/
def setContent (s : SourceMap) (source content : Bytes) : SourceMap :=
  { s with sources := addOnce source s.sources, contents := (source, content) :: s.contents }

/-- Sets what readers put in front of every source name. -/
def setRoot (s : SourceMap) (root : Bytes) : SourceMap := { s with sourceRoot := root }

/-- The content last set for a source. -/
def content? (s : SourceMap) (source : Bytes) : Option Bytes := s.contents.lookup source

/-- The contents by source, absent if none was set. -/
def sourcesContent (s : SourceMap) : List (Option Bytes) :=
  if s.contents.isEmpty then [] else s.sources.map s.content?

end SourceMap

end ScriptTidy
