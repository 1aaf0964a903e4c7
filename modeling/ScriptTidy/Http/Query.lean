import ScriptTidy.Text.Url

/-!
# Queries

A query is a list of keys with values. Pairs that cannot be read are left out, and a query of
too many pairs is not read at all.
-/

namespace ScriptTidy.Http

/-- The pairs of a query, in the order in which they are written. -/
abbrev Query := List (Bytes × Bytes)

namespace Query

/-- A part of a query without escapes; a plus sign stands for a blank. -/
def unescape? (part : Bytes) : Option Bytes :=
  (Url.unescape (part.map fun b => if b = 0x2B then 0x20 else b)).toOption

/-- Reads one pair. There is none in an empty text and in one with a semicolon. -/
def readPair? (text : Bytes) : Option (Bytes × Bytes) :=
  if text.isEmpty || text.elem 0x3B then none
  else
    let (key, value) := Url.cutAt 0x3D text
    match unescape? key, unescape? (value.getD []) with
    | some k, some v => some (k, v)
    | _, _ => none

/-- The greatest number of pairs in a query. -/
def pairLimit : Nat := 10000

/-- Reads a query. One with too many pairs counts as empty. -/
def read (text : Bytes) : Query :=
  let pairs := Bytes.splitOn 0x26 text
  if pairLimit < pairs.length then [] else pairs.filterMap readPair?

/-- The first value of a key, empty if there is none. -/
def get (q : Query) (key : String) : Bytes := (q.lookup (utf8 key)).getD []

/-- A part of a query with escapes. -/
def escape (part : Bytes) : Bytes :=
  (Url.escape (fun b => Url.isUnreserved b || b == 0x20) part).map fun b =>
    if b = 0x20 then 0x2B else b

/-- The query as a text, sorted by keys. -/
def write (q : Query) : Bytes :=
  let sorted := q.mergeSort fun a b => !Bytes.lt b.1 a.1
  Bytes.joinWith [0x26] (sorted.map fun (k, v) => escape k ++ [0x3D] ++ escape v)

end Query

end ScriptTidy.Http
