import ScriptTidy.Yaml.Encoding

/-!
# Reading YAML text character by character

A `Cursor` is a place in a text together with what remains of the text. Before characters are
looked at they have to be demanded: `demand n` makes sure that `n` characters have been decoded
from the place on, and fails if the portion that is needed for them cannot be decoded. The end
of the text can be demanded like a character, any number of times.

Readers take a cursor and give what they have read with the cursor behind it, or the fault that
has stopped them.
-/

namespace ScriptTidy.Yaml

/-- A place in the text: the number of characters before it, its line and its column, all from
zero. -/
structure Mark where
  index : Nat := 0
  line : Nat := 0
  column : Nat := 0
deriving DecidableEq, Repr, Inhabited

/-- What remains of the text from a place on. -/
structure Cursor where
  /-- The characters up to the end of the last portion that can be decoded. -/
  rest : List Char
  mark : Mark := {}
  /-- How many of them have been decoded, ends of the text included. -/
  decoded : Nat := 0
  /-- The sizes of the portions that have not been decoded. -/
  portions : List Nat := []
  /-- What is wrong with the portion after the last one, if there is one. -/
  ending : Option Fault := none
  /-- Whether a byte order mark stood at the cursor when a portion was last decoded. -/
  marked : Bool := false
  /-- The number of characters of the whole text, which bounds all loops. -/
  limit : Nat
deriving Repr

/-- The characters that end a line. -/
def isBreak (c : Char) : Bool := isLineTerminator c || c.toNat == 0x85

/-- A blank within a line. -/
def isGap (c : Char) : Bool := c == ' ' || c == '\t'

/-- The letters of names: ASCII letters, digits, underscore and hyphen. -/
def isNameChar (c : Char) : Bool := c.isAlphanum || c == '_' || c == '-'

namespace Cursor

/-- The start of a text. -/
def ofText (text : Bytes) : Cursor :=
  let d := Decoded.ofText text
  let rest := d.portions.flatten
  { rest, portions := d.portions.map (·.length), ending := d.ending, limit := rest.length + 1 }

/-- Decodes portions, of the given sizes, until `n` characters are decoded. The end of the text
counts for one character and no more portions come after it. -/
def decodeUntil (n : Nat) (c : Cursor) (decoded : Nat) : List Nat → Except Fault Cursor
  | [] =>
    match c.ending with
    | some fault => .error fault
    | none => .ok { c with decoded := decoded + 1, portions := [] }
  | size :: portions =>
    if n ≤ decoded + size then .ok { c with decoded := decoded + size, portions }
    else decodeUntil n c (decoded + size) portions

/-- Makes sure that `n` characters are decoded. -/
def demand (n : Nat) (c : Cursor) : Except Fault Cursor :=
  if n ≤ c.decoded then .ok c
  else
    decodeUntil n { c with marked := c.rest.head? == some byteOrderMark } c.decoded c.portions

/-- The character at a distance. -/
def peek? (c : Cursor) (distance : Nat) : Option Char := c.rest[distance]?

/-- Whether the next character is `ch`. -/
def sees (c : Cursor) (ch : Char) : Bool := c.rest.head? == some ch

/-- Whether the next character satisfies `p`. -/
def seesAny (c : Cursor) (p : Char → Bool) : Bool := c.rest.head?.any p

/-- Whether a line ends at the distance, by a break or by the end of the text. -/
def endsLineAt (c : Cursor) (distance : Nat) : Bool := (c.peek? distance).all isBreak

/-- Whether a word ends at the distance: by a blank, a break or the end of the text. -/
def endsWordAt (c : Cursor) (distance : Nat) : Bool :=
  (c.peek? distance).all fun ch => isGap ch || isBreak ch

/-- One character on, within the line. -/
def skip (c : Cursor) : Cursor :=
  { c with
    rest := c.rest.tail
    decoded := c.decoded - 1
    mark := { c.mark with index := c.mark.index + 1, column := c.mark.column + 1 } }

/-- `n` characters on, within the line. -/
def advance : Nat → Cursor → Cursor
  | 0, c => c
  | n + 1, c => advance n c.skip

/-- Past the line break that comes next, with the break as it is kept in values: all breaks are
line feeds there except the two Unicode separators. -/
def takeBreak (c : Cursor) : Except Fault (List Char × Cursor) := do
  let c ← c.demand 2
  let next := fun (width : Nat) (rest : List Char) =>
    ({ c with rest, decoded := c.decoded - width,
              mark := ⟨c.mark.index + width, c.mark.line + 1, 0⟩ } : Cursor)
  match c.rest with
  | '\r' :: '\n' :: rest => return (['\n'], next 2 rest)
  | ch :: rest =>
    if ch == lineSeparator || ch == paragraphSeparator then return ([ch], next 1 rest)
    else if isBreak ch then return (['\n'], next 1 rest)
    else return ([], c)
  | [] => return ([], c)

/-- Past a line break, if one comes next. -/
def skipBreak (c : Cursor) : Except Fault Cursor :=
  if c.seesAny isBreak then c.takeBreak.map (·.2) else .ok c

/-- Past the characters that satisfy `p`, and these characters. The fuel bounds their number. -/
def takeLoop (p : Char → Bool) : Nat → Cursor → Except Fault (List Char × Cursor)
  | 0, c => .ok ([], c)
  | fuel + 1, c => do
    let c ← c.demand 1
    match c.rest with
    | [] => return ([], c)
    | ch :: _ =>
      if p ch then
        let (more, after) ← takeLoop p fuel c.skip
        return (ch :: more, after)
      else return ([], c)

/-- Past the characters that satisfy `p`, none of which is a line break, and these
characters. -/
def takeWhile (p : Char → Bool) (c : Cursor) : Except Fault (List Char × Cursor) :=
  takeLoop p c.limit c

/-- Past the characters that satisfy `p`, none of which is a line break. -/
def skipWhile (p : Char → Bool) (c : Cursor) : Except Fault Cursor := (c.takeWhile p).map (·.2)

/-- Past blanks and a comment after them. -/
def skipToLineEnd (c : Cursor) : Except Fault Cursor := do
  let c ← c.skipWhile isGap
  if c.sees '#' then c.skipWhile (fun ch => !isBreak ch) else return c

/-- Whether a document marker, three hyphens or three points, stands here at the start of a
line. -/
def atMarker (c : Cursor) : Bool :=
  c.mark.column == 0 && c.endsWordAt 3
    && (c.rest.take 3 == ['-', '-', '-'] || c.rest.take 3 == ['.', '.', '.'])

/-- A fault at this place. It names no line when that is the first. -/
def fault (c : Cursor) (problem : String) : Fault :=
  { line := if c.mark.line = 0 then 0 else c.mark.line + 1, problem := utf8 problem }

end Cursor

end ScriptTidy.Yaml
