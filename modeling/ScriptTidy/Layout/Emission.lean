import ScriptTidy.Layout.Options
import ScriptTidy.Layout.Rules
import ScriptTidy.Layout.TokenText

/-!
# What is written for each token

The layout goes through the tokens in order and decides for each one which white space is
written before and after its text. The decision depends on the open frames, the level of
indentation, the token before and the white space that was already written, which together are
the `LayoutState`; the positions of the output play no part in it.
-/

namespace ScriptTidy

/-- What is written for a token: white space in pieces, the text, and more white space. A token
with an `original` position gets a mapping from the start of its text. -/
structure Emission where
  gap : List Bytes := []
  text : Bytes := []
  after : List Bytes := []
  original : Option Position := none
deriving DecidableEq, Repr

/-- All that is written for a token. -/
def Emission.bytes (e : Emission) : Bytes := e.gap.flatten ++ e.text ++ e.after.flatten

/-- What the layout knows between two tokens. -/
structure LayoutState where
  /-- The token before, comments included. -/
  last : Option LastToken := none
  /-- What is open, innermost first. -/
  frames : List Frame := []
  /-- The level of indentation. On unbalanced input it can fall below zero, and then nothing is
  indented. -/
  level : Int := 0
  /-- A new line was started behind the last token that could end one. -/
  addedNewline : Bool := false
  /-- A space was written behind the last token. -/
  addedSpace : Bool := false
deriving DecidableEq, Repr

/-- White space in the making: the pieces so far, and whether a new line was started or a space
written. -/
structure Gap where
  pieces : List Bytes := []
  newline : Bool
  space : Bool

namespace Gap

/-- Adds a space. -/
def addSpace (g : Gap) : Gap := { g with pieces := g.pieces ++ [[0x20]], space := true }

/-- Starts a new line. -/
def addNewline (g : Gap) : Gap := { g with pieces := g.pieces ++ [[0x0A]], newline := true }

/-- Starts a new line unless one was started. -/
def ensureNewline (g : Gap) : Gap := if g.newline then g else g.addNewline

end Gap

namespace Layout

/-- The indentation of a level. -/
def indentation (indent : Bytes) (level : Int) : Bytes := Bytes.replicate level.toNat indent

/-- The line of a comment with up to `column` leading blanks removed. -/
def stripBlanks (column : Int) (line : Bytes) : Bytes :=
  let blanks := line.takeWhile fun b => b == 0x20 || b == 0x09
  line.drop (min blanks.length column.toNat)

/-- The text of a block comment that started at `column`, with the indentation of its further
lines replaced by `indentation`. -/
def reindent (text : Bytes) (column : Int) (indentation : Bytes) : Bytes :=
  match Bytes.splitOn 0x0A text with
  | [] => []
  | first :: rest =>
    Bytes.joinWith [0x0A] (first :: rest.map fun line => indentation ++ stripBlanks column line)

/-- What the layout remembers of a token that it took for one of kind `kind`. -/
def remember (t : Token) (kind : Kind) : Option LastToken := some ⟨kind, t.value, t.stop.line⟩

/-- Whether the last token ended on the line. -/
def lastEndsOn (s : LayoutState) (line : Int) : Bool := s.last.any fun l => l.stopLine == line

/-- What is written for a comment. A comment on the line of the token before it stays there; a
block comment on the line of the next token stays there as well. -/
def comment (indent : Bytes) (s : LayoutState) (t : Token) (next : Option Token) :
    Emission × LayoutState :=
  let trailing := lastEndsOn s t.start.line
  let separator : List Bytes :=
    if trailing then [[0x20]]
    else if s.last.isSome && !s.addedNewline then [[0x0A]] else []
  let indented := separator ++ [indentation indent (if trailing then 0 else s.level)]
  let inline := t.kind == .blockComment && next.any fun n => n.start.line == t.stop.line
  let emission : Emission :=
    match t.kind with
    | .blockComment =>
      { gap := indented
        text := utf8 "/*" ++ reindent t.value t.start.column (indentation indent s.level)
          ++ utf8 "*/"
        after := [if inline then [0x20] else [0x0A]] }
    | .hashbang => { gap := separator, text := utf8 "#!" ++ t.value, after := [[0x0A]] }
    | _ => { gap := indented, text := utf8 "//" ++ t.value, after := [[0x0A]] }
  (emission,
    { s with last := remember t t.kind, addedNewline := !inline, addedSpace := inline })

/-- The kind the layout takes a token for: a reserved word behind a dot is a plain name. -/
def effectiveKind (s : LayoutState) (t : Token) : Kind :=
  if t.kind.isKeyword && s.last.any (·.kind == .punct .dot) then .name else t.kind

/-- White space behind a closing brace. -/
def afterBrace (kind : Kind) (frames : List Frame) (g : Gap) : Gap :=
  if (kind = .keyword .whileKw ∧ frames.head? = some .doBody) ∨ Rules.continuesAfterBrace kind
  then g.addSpace
  else if Rules.hugsBrace kind then g
  else g.addNewline

/-- Whether the token closes a conditional or a substitution, which puts a space before it. -/
def closesSpaced (kind : Kind) (frames : List Frame) : Bool :=
  (kind == .punct .colon && frames.head? == some .ternary)
    || (kind == .punct .braceR && frames.head? == some .substitution)

/-- The white space before a token of kind `kind`, given the frames that are open with it and
the level it is written at. -/
def gapBefore (indent : Bytes) (s : LayoutState) (kind : Kind) (startLine : Int)
    (frames : List Frame) (level : Int) : List Bytes :=
  let lastKind := s.last.map (·.kind)
  let g : Gap := { newline := s.addedNewline, space := s.addedSpace }
  let g := if lastKind = some (.punct .braceR) then afterBrace kind frames g else g
  let g := if closesSpaced kind frames then g.addSpace else g
  let g :=
    if kind = .keyword .elseKw ∧ lastKind.isSome ∧ lastKind ≠ some (.punct .braceR)
      ∧ lastKind ≠ some (.punct .dot)
    then g.addSpace else g
  let g := if Rules.endsStatement kind startLine s.last || Frame.dedents kind frames
    then g.ensureNewline else g
  if g.newline then
    let level := if kind = .keyword .caseKw ∨ kind = .keyword .defaultKw then level - 1 else level
    g.pieces ++ [indentation indent level]
  else if !g.space && Rules.needsSpace kind s.last then g.pieces ++ [[0x20]]
  else g.pieces

/-- The level at which a token is written. The brace that closes the body of a `switch` ends
the indentation of its cases too. -/
def levelBefore (kind : Kind) (frames : List Frame) (level : Int) : Int :=
  if Frame.dedents kind frames then
    if kind = .punct .braceR ∧ frames[1]? = some .switchBody then level - 2 else level - 1
  else level

/-- Whether the next token is a comment on the line on which `t` ends. -/
def commentFollows (t : Token) (next : Option Token) : Bool :=
  next.any fun n => n.isComment && n.start.line == t.stop.line

/-- What is written for a token that is neither a comment nor the end. A new line behind it has
to wait if a comment follows on the same line. -/
def plain (indent : Bytes) (s : LayoutState) (t : Token) (kind : Kind) (next : Option Token) :
    Emission × LayoutState :=
  let arrayLiteral := Rules.isArrayLiteral kind s.last
  let frames := (Frame.opened? kind arrayLiteral).toList ++ s.frames
  let level := levelBefore kind frames s.level
  let waits := commentFollows t next
  let newline := !waits && Rules.endsLine kind arrayLiteral frames
  ({ gap := gapBefore indent s kind t.start.line frames level
     text := Token.text { t with kind := kind }
     after := if newline then [[0x0A]] else []
     original := some t.start },
   { last := remember t kind
     frames := Frame.afterToken kind frames
     level := if Frame.indents kind arrayLiteral then level + 1 else level
     addedNewline := if waits then s.addedNewline else newline
     addedSpace := false })

/-- What is written for one token, given the one after it. The end writes a line end unless one
was just written. -/
def step (indent : Bytes) (s : LayoutState) (t : Token) (next : Option Token) :
    Emission × LayoutState :=
  if t.isComment then comment indent s t next
  else
    let kind := effectiveKind s t
    if kind = .eof then
      ({ after := if s.addedNewline then [] else [[0x0A]] }, { s with last := remember t .eof })
    else plain indent s t kind next

/-- What is written for each token of a list. -/
def emissionsFrom (indent : Bytes) : LayoutState → List Token → List Emission
  | _, [] => []
  | s, t :: rest =>
    let (e, s) := step indent s t rest.head?
    e :: emissionsFrom indent s rest

/-- The end of an input at no particular place. -/
def endToken : Token := ⟨.eof, [], ⟨0, 0, 0⟩, ⟨0, 0, 0⟩⟩

/-- The state behind a list of tokens. -/
def stateAfter (indent : Bytes) : LayoutState → List Token → LayoutState
  | s, [] => s
  | s, t :: rest => stateAfter indent (step indent s t rest.head?).2 rest

/-- What is written for a list of tokens. If the end is missing it is assumed, without being
known to the token before it. -/
def emissions (indent : Bytes) (tokens : List Token) : List Emission :=
  let written := emissionsFrom indent {} tokens
  if tokens.getLast?.any (·.kind == .eof) then written
  else written ++ [(step indent (stateAfter indent {} tokens) endToken none).1]

end Layout

end ScriptTidy
