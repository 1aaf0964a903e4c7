import ScriptTidy.Yaml.ScalarText

/-!
# From characters to tokens

Two kinds of YAML tokens can only be placed after what follows them has been seen: a mapping
key without an indicator is a key because of the colon after it, and a block ends where a line
starts further left. So tokens wait in a queue. A token that may still turn out to start a key
holds back the queue until a colon comes, the line ends, or 1024 characters have passed.

`tokens` gives the tokens of a text in order, up to the end or the first fault.
-/

namespace ScriptTidy.Yaml

/-- A place where a mapping key without an indicator may start. -/
structure KeyCandidate where
  /-- Whether it may still become a key. -/
  possible : Bool := false
  /-- Whether anything but a key would be a fault here. -/
  required : Bool := false
  /-- Whether the tokens from this one on wait for the decision. -/
  held : Bool := false
  /-- The number of its token, counted from the start of the text. -/
  number : Nat := 0
  mark : Mark := {}

/-- A text on its way to tokens. -/
structure TokenQueue where
  cursor : Cursor
  /-- Tokens that have been read and not yet given out. -/
  waiting : List Token := []
  /-- The number of tokens that have been given out. -/
  given : Nat := 0
  /-- The column of the innermost block, minus one outside of all blocks. -/
  indent : Int := -1
  /-- The columns of the blocks around it, innermost first. -/
  outerIndents : List Int := []
  /-- The key candidate of the innermost flow collection. -/
  candidate : KeyCandidate := {}
  /-- The candidates of what is around it, innermost first: one per open flow collection. -/
  outerCandidates : List KeyCandidate := []
  /-- Whether a key without indicator may start here. -/
  keyAllowed : Bool := true

namespace TokenQueue

/-- How deep blocks and flow collections may be nested. -/
def maxDepth : Nat := 10000

/-- Whether the place is inside a flow collection. -/
def inFlow (q : TokenQueue) : Bool := !q.outerCandidates.isEmpty

/-- The place that has been reached. -/
def mark (q : TokenQueue) : Mark := q.cursor.mark

/-- The number of the next token that is read. -/
def nextNumber (q : TokenQueue) : Nat := q.given + q.waiting.length

/-- The queue with a token at its end. -/
def push (q : TokenQueue) (t : Token) : TokenQueue := { q with waiting := q.waiting ++ [t] }

/-- The queue with a token before the one of the given number; at the end if that one has been
given out already. -/
def insertBefore (q : TokenQueue) (number : Nat) (t : Token) : TokenQueue :=
  if number < q.given then q.push t
  else
    let at_ := number - q.given
    { q with waiting := q.waiting.take at_ ++ [t] ++ q.waiting.drop at_ }

/-- The queue with a token of the next `width` characters at its end. -/
def pushIndicator (q : TokenQueue) (width : Nat) (kind : TokenKind) : TokenQueue :=
  let after := q.cursor.advance width
  { q with cursor := after }.push (after.tokenFrom q.mark kind)

/-- The queue with a token that was read at its end. -/
def pushRead (q : TokenQueue) (read : Token × Cursor) : TokenQueue :=
  { q with cursor := read.2 }.push read.1

/-- The fault of a candidate that had to become a key and did not. -/
def missingColon (q : TokenQueue) : Fault := q.cursor.fault "could not find expected ':'"

/-- Whether a candidate is too far back to become a key. -/
def isStale (q : TokenQueue) (k : KeyCandidate) : Bool :=
  k.mark.line < q.mark.line || k.mark.index + 1024 < q.mark.index

/-- Whether a candidate can still become a key. -/
def isLive (q : TokenQueue) (k : KeyCandidate) : Except Fault Bool :=
  if !k.possible then .ok false
  else if !q.isStale k then .ok true
  else if k.required then .error q.missingColon
  else .ok false

/-- Gives up the current candidate. -/
def dropCandidate (q : TokenQueue) : Except Fault TokenQueue :=
  if !q.candidate.possible then .ok q
  else if q.candidate.required then .error q.missingColon
  else .ok { q with candidate := { q.candidate with possible := false, held := false } }

/-- Makes the next token a candidate, if a key may start there. -/
def saveCandidate (q : TokenQueue) : Except Fault TokenQueue :=
  if !q.keyAllowed then .ok q
  else do
    let required := !q.inFlow && q.indent = (q.mark.column : Int)
    let dropped ← q.dropCandidate
    return { dropped with candidate :=
      { possible := true, required, held := true, number := q.nextNumber, mark := q.mark } }

/-- Opens a block at a column if the column is further right than the current block's. The
token that opens it goes where `place` puts it. -/
def openBlock (q : TokenQueue) (column : Nat) (place : TokenQueue → TokenQueue) :
    Except Fault TokenQueue :=
  if q.inFlow || (column : Int) ≤ q.indent then .ok q
  else if maxDepth ≤ q.outerIndents.length then
    .error (q.cursor.fault "exceeded max depth of 10000")
  else
    .ok (place { q with indent := column, outerIndents := q.indent :: q.outerIndents })

/-- Closes the blocks whose column is to the right of `column`. -/
def closeBlocks (column : Int) (q : TokenQueue) : List Int → TokenQueue
  | [] => q
  | outer :: rest =>
    if q.indent ≤ column then q
    else
      closeBlocks column
        ({ q with indent := outer, outerIndents := rest }.push
          ⟨.blockEnd, q.mark, q.mark⟩) rest

/-- Closes the blocks that end before `column`; inside flow collections columns mean nothing. -/
def unroll (q : TokenQueue) (column : Int) : TokenQueue :=
  if q.inFlow then q else q.closeBlocks column q.outerIndents

/-- Past a byte order mark at the start of a line. Of the characters decoded together, the first
decides: if it is a mark, each line among them loses its first character. -/
def skipOrderMark (c : Cursor) : Cursor := if c.mark.column = 0 ∧ c.marked then c.skip else c

/-- Past white space, comments and line breaks. Tabs count as white space where no key may
start. The fuel bounds the number of lines. -/
def skipToToken : Nat → TokenQueue → Except Fault TokenQueue
  | 0, q => .ok q
  | fuel + 1, q => do
    let blank := fun (ch : Char) => ch == ' ' || ((q.inFlow || !q.keyAllowed) && ch == '\t')
    let c := skipOrderMark (← q.cursor.demand 1)
    let c ← c.skipWhile blank
    let c ← if c.sees '#' then c.skipWhile (fun ch => !isBreak ch) else pure c
    if c.seesAny isBreak then
      let (_, after) ← c.takeBreak
      skipToToken fuel { q with cursor := after, keyAllowed := q.keyAllowed || !q.inFlow }
    else return { q with cursor := c }

/-- The end of the text, which is also the end of the last line. -/
def readEnd (q : TokenQueue) : Except Fault TokenQueue := do
  let m := q.mark
  let ended := if m.column = 0 then m else { m with line := m.line + 1, column := 0 }
  let q := { q with cursor := { q.cursor with mark := ended } }
  let q ← (q.unroll (-1)).dropCandidate
  return { q with keyAllowed := false }.push ⟨.streamEnd, ended, ended⟩

/-- A directive. -/
def readDirectiveLine (q : TokenQueue) : Except Fault TokenQueue := do
  let q ← (q.unroll (-1)).dropCandidate
  return { q with keyAllowed := false }.pushRead (← readDirective q.cursor)

/-- A document marker. -/
def readMarker (q : TokenQueue) (kind : TokenKind) : Except Fault TokenQueue := do
  let q ← (q.unroll (-1)).dropCandidate
  return { q with keyAllowed := false }.pushIndicator 3 kind

/-- The start of a flow collection, which may also start a key. -/
def readFlowStart (q : TokenQueue) (kind : TokenKind) : Except Fault TokenQueue := do
  let q ← q.saveCandidate
  if maxDepth ≤ q.outerCandidates.length then
    throw (q.cursor.fault "exceeded max depth of 10000")
  let inner : KeyCandidate := { number := q.nextNumber, mark := q.mark }
  let q := { q with
    candidate := inner, outerCandidates := q.candidate :: q.outerCandidates, keyAllowed := true }
  return q.pushIndicator 1 kind

/-- The end of a flow collection. A candidate with the number of the one that ends here no
longer holds back the queue. -/
def readFlowEnd (q : TokenQueue) (kind : TokenKind) : Except Fault TokenQueue := do
  let q ← q.dropCandidate
  let release := fun (k : KeyCandidate) =>
    if k.number = q.candidate.number then { k with held := false } else k
  let q := match q.outerCandidates.map release with
    | [] => q
    | outer :: rest => { q with candidate := outer, outerCandidates := rest }
  return { q with keyAllowed := false }.pushIndicator 1 kind

/-- A comma in a flow collection. -/
def readFlowEntry (q : TokenQueue) : Except Fault TokenQueue := do
  let q ← q.dropCandidate
  return { q with keyAllowed := true }.pushIndicator 1 .flowEntry

/-- The hyphen of a sequence entry. -/
def readBlockEntry (q : TokenQueue) : Except Fault TokenQueue := do
  if !q.inFlow && !q.keyAllowed then
    throw (q.cursor.fault "block sequence entries are not allowed in this context")
  let q ← q.openBlock q.mark.column fun q => q.push ⟨.blockSequenceStart, q.mark, q.mark⟩
  let q ← q.dropCandidate
  return { q with keyAllowed := true }.pushIndicator 1 .blockEntry

/-- The question mark before a key. -/
def readKey (q : TokenQueue) : Except Fault TokenQueue := do
  if !q.inFlow && !q.keyAllowed then
    throw (q.cursor.fault "mapping keys are not allowed in this context")
  let q ← q.openBlock q.mark.column fun q => q.push ⟨.blockMappingStart, q.mark, q.mark⟩
  let q ← q.dropCandidate
  return { q with keyAllowed := !q.inFlow }.pushIndicator 1 .key

/-- The colon before a value. If it follows a candidate, that one becomes a key. -/
def readValue (q : TokenQueue) : Except Fault TokenQueue := do
  let k := q.candidate
  if ← q.isLive k then
    let q := q.insertBefore k.number ⟨.key, k.mark, k.mark⟩
    let q ← q.openBlock k.mark.column fun q =>
      q.insertBefore k.number ⟨.blockMappingStart, k.mark, k.mark⟩
    let q := { q with
      candidate := { k with possible := false, held := false }, keyAllowed := false }
    return q.pushIndicator 1 .value
  let q := { q with candidate := { k with possible := false } }
  if !q.inFlow && !q.keyAllowed then
    throw (q.cursor.fault "mapping values are not allowed in this context")
  let q ← q.openBlock q.mark.column fun q => q.push ⟨.blockMappingStart, q.mark, q.mark⟩
  return { q with keyAllowed := !q.inFlow }.pushIndicator 1 .value

/-- A token that may start a key and after which none may start. -/
def readCandidate (q : TokenQueue) (read : Cursor → Except Fault (Token × Cursor)) :
    Except Fault TokenQueue := do
  let q ← q.saveCandidate
  return { q with keyAllowed := false }.pushRead (← read q.cursor)

/-- An anchor or an alias. -/
def readAnchor (make : List Char → TokenKind) (c : Cursor) : Except Fault (Token × Cursor) := do
  let (name, after) ← readAnchorName c
  return (after.tokenFrom c.mark (make name), after)

/-- A block scalar. -/
def readBlockScalar (q : TokenQueue) (folded : Bool) : Except Fault TokenQueue := do
  let q ← q.dropCandidate
  return { q with keyAllowed := true }.pushRead (← readBlock folded q.indent q.cursor)

/-- A plain scalar. A key may start after it if it ended with its line. -/
def readPlainScalar (q : TokenQueue) : Except Fault TokenQueue := do
  let q ← q.saveCandidate
  let (t, broken, after) ← readPlain q.inFlow (q.indent + 1).toNat q.cursor
  return { q with keyAllowed := broken }.pushRead (t, after)

/-- The characters that cannot start a plain scalar by themselves. -/
def isIndicator (c : Char) : Bool := "-?:,[]\x7b\x7d#&*!|>'\"%@\x60".toList.contains c

/-- Whether a plain scalar starts here. -/
def startsPlain (q : TokenQueue) : Bool :=
  let c := q.cursor
  (!c.endsWordAt 0 && !c.seesAny isIndicator)
    || (c.sees '-' && !(c.peek? 1).any isGap)
    || (!q.inFlow && (c.sees '?' || c.sees ':') && !c.endsWordAt 1)

/-- The next token, read into the queue with those that it entails. -/
def readNext (q : TokenQueue) : Except Fault TokenQueue := do
  let q ← skipToToken q.cursor.limit q
  let q := q.unroll q.mark.column
  let c ← q.cursor.demand 4
  let q := { q with cursor := c }
  match c.rest with
  | [] => q.readEnd
  | ch :: _ =>
    if q.mark.column = 0 ∧ ch = '%' then q.readDirectiveLine
    else if c.atMarker then q.readMarker (if ch = '-' then .documentStart else .documentEnd)
    else if ch = '[' then q.readFlowStart .flowSequenceStart
    else if ch = '\x7b' then q.readFlowStart .flowMappingStart
    else if ch = ']' then q.readFlowEnd .flowSequenceEnd
    else if ch = '\x7d' then q.readFlowEnd .flowMappingEnd
    else if ch = ',' then q.readFlowEntry
    else if ch = '-' ∧ c.endsWordAt 1 then q.readBlockEntry
    else if ch = '?' ∧ (q.inFlow ∨ c.endsWordAt 1) then q.readKey
    else if ch = ':' ∧ (q.inFlow ∨ c.endsWordAt 1) then q.readValue
    else if ch = '*' then q.readCandidate (readAnchor .alias)
    else if ch = '&' then q.readCandidate (readAnchor .anchor)
    else if ch = '!' then q.readCandidate readTag
    else if ch = '|' ∧ !q.inFlow then q.readBlockScalar false
    else if ch = '>' ∧ !q.inFlow then q.readBlockScalar true
    else if ch = '\'' then q.readCandidate (readQuoted true)
    else if ch = '"' then q.readCandidate (readQuoted false)
    else if q.startsPlain then q.readPlainScalar
    else .error (c.fault "found character that cannot start any token")

/-- Whether the first waiting token has to go on waiting. -/
def isHeld (q : TokenQueue) : Except Fault Bool :=
  match (q.candidate :: q.outerCandidates).find? fun k => k.held && k.number == q.given with
  | none => .ok false
  | some k => q.isLive k

/-- The tokens up to the end of the text or the first fault. The fuel bounds the number of
steps. -/
def drain : Nat → TokenQueue → List Token × Option Fault
  | 0, _ => ([], none)
  | fuel + 1, q =>
    match q.waiting with
    | [] =>
      match q.readNext with
      | .error fault => ([], some fault)
      | .ok q => drain fuel q
    | t :: waiting =>
      match q.isHeld with
      | .error fault => ([], some fault)
      | .ok true =>
        match q.readNext with
        | .error fault => ([], some fault)
        | .ok q => drain fuel q
      | .ok false =>
        if t.kind = .streamEnd then ([t], none)
        else
          let (rest, fault) := drain fuel { q with waiting, given := q.given + 1 }
          (t :: rest, fault)

end TokenQueue

/-- The tokens of a text, and the fault that ended them if one did. -/
def tokens (text : Bytes) : List Token × Option Fault :=
  let cursor := Cursor.ofText text
  TokenQueue.drain (8 * cursor.limit + 16) { cursor }

end ScriptTidy.Yaml
