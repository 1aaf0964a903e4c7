import ScriptTidy.Yaml.Property

/-!
# The text of scalars

Scalars are quoted, block or plain. In all but literal blocks line breaks are folded: one
break becomes a space, and of several the first is dropped. Each reader starts at the first
character of the scalar and gives the text with the place after it.
-/

namespace ScriptTidy.Yaml

/-- White space inside a scalar: blanks of a line, or a break with further breaks after it. -/
structure Spacing where
  /-- Blanks on the same line. -/
  blanks : List Char := []
  /-- The first break, if there is one. -/
  firstBreak : List Char := []
  /-- The breaks after the first. -/
  moreBreaks : List Char := []
  /-- Whether a line has ended. -/
  broken : Bool := false

/-- What the white space becomes in the value. -/
def Spacing.folded (s : Spacing) : List Char :=
  if !s.broken then s.blanks
  else if s.firstBreak.head? == some '\n' then
    if s.moreBreaks.isEmpty then [' '] else s.moreBreaks
  else s.firstBreak ++ s.moreBreaks

/-- The white space at the cursor. `indent` is the column below which no tab may stand on a
continuation line. The fuel bounds the number of characters. -/
def readSpacing (indent : Nat) : Nat → Spacing → Cursor → Except Fault (Spacing × Cursor)
  | 0, s, c => .ok (s, c)
  | fuel + 1, s, c => do
    let c ← c.demand 1
    if c.seesAny isGap then
      if s.broken && c.mark.column < indent && c.sees '\t' then
        throw (c.fault "found a tab character that violates indentation")
      let s := if s.broken then s else { s with blanks := s.blanks ++ c.rest.take 1 }
      readSpacing indent fuel s c.skip
    else if c.seesAny isBreak then
      let (br, after) ← c.takeBreak
      let s := if s.broken then { s with moreBreaks := s.moreBreaks ++ br }
        else { s with blanks := [], firstBreak := br, broken := true }
      readSpacing indent fuel s after
    else return (s, c)

/-- Whether a plain scalar ends before this character of a word. -/
def endsPlain (inFlow : Bool) (c : Cursor) : Bool :=
  (c.sees ':' && c.endsWordAt 1) || (inFlow && c.seesAny (",?[]\x7b\x7d".toList.contains ·))

/-- The word of a plain scalar at the cursor. The fuel bounds the number of characters. -/
def readPlainWord (inFlow : Bool) : Nat → Cursor → Except Fault (List Char × Cursor)
  | 0, c => .ok ([], c)
  | fuel + 1, c => do
    if c.endsWordAt 0 || endsPlain inFlow c then return ([], c)
    let (more, after) ← readPlainWord inFlow fuel (← c.skip.demand 2)
    return (c.rest.take 1 ++ more, after)

/-- A plain scalar as it is read word by word. -/
structure PlainScalar where
  text : List Char := []
  /-- The place after the last word. -/
  stop : Mark
  /-- White space after the last word. -/
  spacing : Spacing := {}

/-- The words of a plain scalar. `indent` is the least column of continuation lines. The fuel
bounds the number of words. -/
def readPlainWords (inFlow : Bool) (indent : Nat) :
    Nat → PlainScalar → Cursor → Except Fault (PlainScalar × Cursor)
  | 0, s, c => .ok (s, c)
  | fuel + 1, s, c => do
    let c ← c.demand 4
    if c.atMarker || c.sees '#' then return (s, c)
    let (word, after) ← readPlainWord inFlow c.limit c
    let s : PlainScalar := if word.isEmpty then s
      else { text := s.text ++ s.spacing.folded ++ word, stop := after.mark }
    if !(after.seesAny isGap || after.seesAny isBreak) then return (s, after)
    let (spacing, after) ← readSpacing indent c.limit s.spacing after
    let s := { s with spacing }
    if !inFlow && after.mark.column < indent then return (s, after)
    readPlainWords inFlow indent fuel s after

/-- A plain scalar, and whether a line has ended after its last word. -/
def readPlain (inFlow : Bool) (indent : Nat) (c : Cursor) :
    Except Fault (Token × Bool × Cursor) := do
  let (s, after) ← readPlainWords inFlow indent c.limit { stop := c.mark } c
  return ({ kind := .scalar s.text true, start := c.mark, stop := s.stop },
    s.spacing.broken, after)

/-- What a character stands for after a backslash. -/
def escapeValue? (c : Char) : Option Nat :=
  [('0', 0x00), ('a', 0x07), ('b', 0x08), ('t', 0x09), ('\t', 0x09), ('n', 0x0A), ('v', 0x0B),
    ('f', 0x0C), ('r', 0x0D), ('e', 0x1B), (' ', 0x20), ('"', 0x22), ('\'', 0x27),
    ('\\', 0x5C), ('N', 0x85), ('_', 0xA0), ('L', 0x2028), ('P', 0x2029)].lookup c

/-- The number of hexadecimal digits that follow a character after a backslash. -/
def escapeDigits? (c : Char) : Option Nat := [('x', 2), ('u', 4), ('U', 8)].lookup c

/-- The character of an escape that starts with the backslash at the cursor. -/
def readEscape (c : Cursor) : Except Fault (Char × Cursor) := do
  let letter := (c.peek? 1).getD '\x00'
  let after := c.advance 2
  match escapeValue? letter, escapeDigits? letter with
  | some n, _ => return (Char.ofNat n, after)
  | none, none => throw (c.fault "found unknown escape character")
  | none, some width =>
    let after ← after.demand width
    let digits := after.rest.take width
    if digits.length < width || !digits.all (isDigitIn 16) then
      throw (c.fault "did not find expected hexdecimal number")
    let n := digits.foldl (fun n d => 16 * n + (hexValue? d).getD 0) 0
    if (0xD800 ≤ n && n ≤ 0xDFFF) || 0x10FFFF < n then
      throw (c.fault "found invalid Unicode character escape code")
    return (Char.ofNat n, after.advance width)

/-- A word of a quoted scalar, and whether it ended with an escaped line break. The fuel bounds
the number of characters. -/
def readQuotedWord (single : Bool) : Nat → Cursor → Except Fault (List Char × Bool × Cursor)
  | 0, c => .ok ([], false, c)
  | fuel + 1, c => do
    if c.endsWordAt 0 then return ([], false, c)
    if single && c.sees '\'' && c.peek? 1 ≠ some '\'' then return ([], false, c)
    if !single && c.sees '"' then return ([], false, c)
    if !single && c.sees '\\' && (c.peek? 1).any isBreak then
      let c ← c.demand 3
      return ([], true, (← c.skip.takeBreak).2)
    let (ch, after) ← if single && c.sees '\'' then pure ('\'', c.advance 2)
      else if !single && c.sees '\\' then readEscape c
      else pure (c.rest.head?.getD '\x00', c.skip)
    let (more, broken, after) ← readQuotedWord single fuel (← after.demand 2)
    return (ch :: more, broken, after)

/-- The words of a quoted scalar up to the closing quote. The fuel bounds the number of words. -/
def readQuotedWords (single : Bool) : Nat → List Char → Cursor → Except Fault (List Char × Cursor)
  | 0, _, c => .error (c.fault "found unexpected end of stream")
  | fuel + 1, acc, c => do
    let c ← c.demand 4
    if c.atMarker then throw (c.fault "found unexpected document indicator")
    if c.rest.isEmpty then throw (c.fault "found unexpected end of stream")
    let (word, broken, after) ← readQuotedWord single c.limit c
    let after ← after.demand 1
    let acc := acc ++ word
    if after.sees (if single then '\'' else '"') then return (acc, after.skip)
    let (spacing, after) ← readSpacing 0 c.limit { broken } after
    readQuotedWords single fuel (acc ++ spacing.folded) after

/-- A quoted scalar. -/
def readQuoted (single : Bool) (c : Cursor) : Except Fault (Token × Cursor) := do
  let (text, after) ← readQuotedWords single c.limit [] c.skip
  return (after.tokenFrom c.mark (.scalar text false), after)

/-- What becomes of the line breaks at the end of a block scalar. -/
inductive Chomping
  | strip
  | clip
  | keep
deriving DecidableEq

/-- The chomping indicator of a block scalar, if one comes next. -/
def readChomping (c : Cursor) : Except Fault (Option Chomping × Cursor) := do
  let c ← c.demand 1
  if c.sees '+' then return (some .keep, c.skip)
  if c.sees '-' then return (some .strip, c.skip)
  return (none, c)

/-- The indentation indicator of a block scalar, zero if none comes next. -/
def readIndentation (c : Cursor) : Except Fault (Nat × Cursor) := do
  let c ← c.demand 1
  match c.rest.head?.filter Char.isDigit with
  | none => return (0, c)
  | some d =>
    if d = '0' then throw (c.fault "found an indentation indicator equal to 0")
    return (d.toNat - 0x30, c.skip)

/-- The header of a block scalar: its chomping and its indentation indicator, zero if there is
none, in either order. -/
def readBlockHeader (c : Cursor) : Except Fault ((Chomping × Nat) × Cursor) := do
  let (chomping, c) ← readChomping c
  let (indentation, c) ← readIndentation c
  match chomping with
  | some chomping => return ((chomping, indentation), c)
  | none =>
    if indentation = 0 then return ((.clip, 0), c)
    let (chomping, c) ← readChomping c
    return ((chomping.getD .clip, indentation), c)

/-- The indentation and the empty lines before the next line of a block scalar. `indent` is
zero while it is not known. Gives the breaks and the widest column seen. The fuel bounds the
number of characters. -/
def readBlockBreaks (indent : Nat) :
    Nat → Nat → List Char → Cursor → Except Fault (List Char × Nat × Cursor)
  | 0, widest, breaks, c => .ok (breaks, max widest c.mark.column, c)
  | fuel + 1, widest, breaks, c => do
    let c ← c.demand 1
    if (indent = 0 ∨ c.mark.column < indent) ∧ c.sees ' ' then
      readBlockBreaks indent fuel widest breaks c.skip
    else
      let widest := max widest c.mark.column
      if (indent = 0 ∨ c.mark.column < indent) ∧ c.sees '\t' then
        throw (c.fault "found a tab character where an indentation space is expected")
      if c.seesAny isBreak then
        let (br, after) ← c.takeBreak
        readBlockBreaks indent fuel widest (breaks ++ br) after
      else return (breaks, widest, c)

/-- A block scalar as it is read line by line. -/
structure BlockScalar where
  text : List Char := []
  /-- The break that ended the last line. -/
  lastBreak : List Char := []
  /-- The breaks of the empty lines after it. -/
  emptyLines : List Char := []
  /-- Whether the last line started with a blank. -/
  startedBlank : Bool := false

/-- The lines of a block scalar. The fuel bounds the number of lines. -/
def readBlockLines (folded : Bool) (indent : Nat) :
    Nat → BlockScalar → Cursor → Except Fault (BlockScalar × Cursor)
  | 0, s, c => .ok (s, c)
  | fuel + 1, s, c => do
    if c.mark.column ≠ indent ∨ c.rest.isEmpty then return (s, c)
    let blank := c.seesAny isGap
    let joined := folded && !s.startedBlank && !blank && s.lastBreak.head? == some '\n'
    let gap := if !joined then s.lastBreak else if s.emptyLines.isEmpty then [' '] else []
    let (line, after) ← c.takeWhile (fun ch => !isBreak ch)
    let (br, after) ← after.takeBreak
    let (emptyLines, _, after) ← readBlockBreaks indent c.limit 0 [] after
    readBlockLines folded indent fuel
      { text := s.text ++ gap ++ s.emptyLines ++ line, lastBreak := br, emptyLines,
        startedBlank := blank } after

/-- A block scalar inside a block whose indentation is `outer`, minus one at the top. -/
def readBlock (folded : Bool) (outer : Int) (c : Cursor) : Except Fault (Token × Cursor) := do
  let ((chomping, indicator), after) ← readBlockHeader c.skip
  let after ← after.skipToLineEnd
  if !after.endsLineAt 0 then throw (after.fault "did not find expected comment or line break")
  let after ← after.skipBreak
  let given := if indicator = 0 then 0 else (max outer 0).toNat + indicator
  let (emptyLines, widest, after) ← readBlockBreaks given c.limit 0 [] after
  let indent := if given = 0 then max (max widest (outer + 1).toNat) 1 else given
  let (s, after) ← readBlockLines folded indent c.limit { emptyLines } after
  let text := s.text ++ (if chomping = .strip then [] else s.lastBreak)
    ++ (if chomping = .keep then s.emptyLines else [])
  return (after.tokenFrom c.mark (.scalar text false), after)

end ScriptTidy.Yaml
