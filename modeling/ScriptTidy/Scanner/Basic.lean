import ScriptTidy.Scanner.Context
import ScriptTidy.Scanner.Lexeme
import ScriptTidy.Scanner.Trivia

/-!
# The scanner

`Scanner.next` reads one token and the comments before it, and `tokenize` a whole source. A
scanner that has failed keeps failing with the same error, and behind the end of the source it
keeps returning the end.

Inside a template literal there is no trivia: the text up to the next substitution or closing
quote is one token, which may be empty, and the delimiter behind it is the next.
-/

namespace ScriptTidy

namespace Scanner

/-- A token without a value between two cursors. -/
def bareToken (kind : Kind) (start stop : Cursor) : Token :=
  ⟨kind, [], start.position, stop.position⟩

/-- A token whose value is the text it was read from. -/
def rawToken (kind : Kind) (start stop : Cursor) : Token :=
  ⟨kind, start.textTo stop, start.position, stop.position⟩

/-- The kind of a word. -/
def wordKind (word : Bytes) : Kind :=
  match Keyword.ofWord? word with
  | some k => .keyword k
  | none => .name

/-- Whether a name may start with the character; an escape may stand for any. -/
def startsName (ch : Char) : Bool := isIdentifierStart ch.toNat || ch == '\\'

/-- Whether a number starts here: with a digit, or with a point in front of one. -/
def startsNumber (c : Cursor) : Bool :=
  digitAhead 10 c || (c.peek? == some '.' && c.peekSecond?.any (isDigitIn 10))

/-- The raw token from `c` to where the reader `stop` ended. -/
def rawTokenTo (kind : Kind) (c : Cursor) (stop : Except LexError Cursor) :
    Except LexError (Token × Cursor) :=
  match stop with
  | .ok d => .ok (rawToken kind c d, d)
  | .error e => .error e

/-- A name or reserved word. -/
def readWord (c : Cursor) : Except LexError (Token × Cursor) :=
  match readName true c with
  | .ok (word, d) => .ok (⟨wordKind word, word, c.position, d.position⟩, d)
  | .error e => .error e

/-- A string in the quotes that stand here. -/
def readQuoted (quote : Char) (c : Cursor) : Except LexError (Token × Cursor) :=
  match readString quote c.position c.advance with
  | .ok (value, d) => .ok (⟨.string, value, c.position, d.position⟩, d)
  | .error e => .error e

/-- A private name. A hash that no name follows belongs nowhere. -/
def readPrivateName (c : Cursor) : Except LexError (Token × Cursor) :=
  let body := c.advance
  if body.peek?.any startsName then
    match readName true body with
    | .ok (word, d) => .ok (⟨.privateName, word, c.position, d.position⟩, d)
    | .error e => .error e
  else .error ⟨c.position, .unexpectedCharacter '#'⟩

/-- A punctuator or operator. -/
def readPunctuator (ch : Char) (c : Cursor) : Except LexError (Token × Cursor) :=
  match Punctuator.read? ((c.rest.take 4).map (·.char)) with
  | some p =>
    let d := c.advanceBy p.label.length
    .ok (bareToken (.punct p) c d, d)
  | none => .error ⟨c.position, .unexpectedCharacter ch⟩

/-- The next token of ordinary code, which starts right here. -/
def readToken (exprAllowed : Bool) (c : Cursor) : Except LexError (Token × Cursor) :=
  match c.peek? with
  | none => .ok (bareToken .eof c c, c)
  | some ch =>
    if startsName ch then readWord c
    else if startsNumber c then rawTokenTo .num c (readNumber c)
    else if ch = '"' ∨ ch = '\'' then readQuoted ch c
    else if ch = '/' ∧ exprAllowed then rawTokenTo .regexp c (readRegexp c)
    else if ch = '#' then readPrivateName c
    else readPunctuator ch c

/-- The delimiter that ends a template chunk. -/
def readChunkDelimiter (c : Cursor) : Token × Cursor :=
  let (p, d) := if c.peek? = some '$' then (Punctuator.dollarBraceL, c.advanceBy 2)
    else (.backQuote, c.advance)
  (bareToken (.punct p) c d, d)

/-- The next token inside a template literal. A delimiter is only read behind a chunk, so
every two delimiters have a chunk between them. -/
def readTemplateToken (prev : Kind) (c : Cursor) : Except LexError (Token × Cursor) :=
  if prev = .template ∧ chunkEnds c then .ok (readChunkDelimiter c)
  else rawTokenTo .template c (readChunk c.position c)

end Scanner

/-- A scanner between two tokens. -/
structure Scanner where
  cursor : Cursor
  /-- The kind of the last token. -/
  prev : Kind := .eof
  situation : Situation := {}
  /-- Nothing was read yet. -/
  atStart : Bool := true
  /-- The error that ended the scan. -/
  failure : Option LexError := none
deriving DecidableEq, Repr

namespace Scanner

/-- What one step of a scanner gives: the comments before the token, the token, and the scanner
behind it. -/
structure Step where
  comments : List Token
  outcome : Except LexError Token
  scanner : Scanner

/-- A scanner at the start of a source, behind its byte order mark. -/
def ofSource (source : Bytes) : Scanner :=
  let c := Cursor.ofSource source
  { cursor := if c.peek? = some byteOrderMark then c.advance else c }

/-- The step that ends with what a reader returned. -/
def finish (s : Scanner) (newline : Bool) (comments : List Token)
    (read : Except LexError (Token × Cursor)) : Step :=
  match read with
  | .error e => ⟨comments, .error e, { s with atStart := false, failure := some e }⟩
  | .ok (token, c) =>
    let situation := { s.situation with newlineBefore := newline }
    ⟨comments, .ok token,
      { s with
        cursor := c
        atStart := false
        prev := token.kind
        situation := situation.after token.kind s.prev token.value }⟩

/-- Reads the next token. -/
def next (s : Scanner) : Step :=
  match s.failure with
  | some e => ⟨[], .error e, s⟩
  | none =>
    if s.situation.innermost = .template then
      s.finish false [] (readTemplateToken s.prev s.cursor)
    else
      let t := if s.atStart then readLeadingTrivia s.cursor else readTrivia false s.cursor
      match t.outcome with
      | .error e => s.finish t.newline t.comments (.error e)
      | .ok c => s.finish t.newline t.comments (readToken s.situation.exprAllowed c)

/-- The results of calling `next` again and again. -/
def steps : (count : Nat) → Scanner → List Step
  | 0, _ => []
  | count + 1, s => s.next :: steps count s.next.scanner

/-- All tokens up to the end of the source, comments included, in at most `fuel` steps. -/
def collect : (fuel : Nat) → Scanner → Except LexError (List Token)
  | 0, _ => .ok []
  | fuel + 1, s =>
    let step := s.next
    match step.outcome with
    | .error e => .error e
    | .ok token =>
      if token.kind = .eof then .ok (step.comments ++ [token])
      else match collect fuel step.scanner with
        | .ok tokens => .ok (step.comments ++ token :: tokens)
        | .error e => .error e

end Scanner

/-- Every token of a source, comments included, in order; the last one is the end. Each byte
gives at most a token and an empty template chunk in front of it, so twice the length of the
source and one are enough steps. -/
def tokenize (source : Bytes) : Except LexError (List Token) :=
  (Scanner.ofSource source).collect (2 * source.length + 1)

end ScriptTidy
