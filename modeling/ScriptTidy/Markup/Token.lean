import ScriptTidy.Markup.CharRef
import ScriptTidy.Markup.RawText

/-!
# Markup tokens

A document is split into texts, tags and everything else (comments, declarations). Each token
keeps the bytes it was read from, so that the tokens of a document make up the document. A tag
that the end of the document cuts off is a token of its own kind.
-/

namespace ScriptTidy.Markup

/-- An attribute of a tag: the key in lower case and the value without character references. -/
structure Attribute where
  key : Bytes
  value : Bytes
deriving DecidableEq, Repr

/-- A start tag: the name in lower case and the attributes in order. -/
structure Tag where
  name : Bytes
  attributes : List Attribute
deriving DecidableEq, Repr

/-- What a token of a document is. -/
inductive TokenKind
  | text
  | startTag (tag : Tag)
  | selfClosingTag (tag : Tag)
  | endTag
  /-- A comment, declaration or processing instruction. -/
  | remark
  /-- A tag without an end. -/
  | cutTag
deriving DecidableEq, Repr

/-- A token of a document and its bytes. -/
structure MarkupToken where
  kind : TokenKind
  raw : Bytes
deriving DecidableEq, Repr

/-- The number of bytes through the next closing angle bracket, or of all. -/
def throughAngle : Bytes → Nat
  | [] => 0
  | b :: r => if b = 0x3E then 1 else throughAngle r + 1

/-- The number of bytes of a comment behind its opening, of which `dashes` dashes were read
last. -/
def commentLength : (dashes : Nat) → Bytes → Nat
  | _, [] => 0
  | dashes, b :: r =>
    if b = 0x2D then commentLength (dashes + 1) r + 1
    else if b = 0x3E ∧ 2 ≤ dashes then 1
    else if b = 0x21 ∧ 2 ≤ dashes then
      match r with
      | [] => 1
      | c :: r => if c = 0x3E then 2 else commentLength 0 r + 2
    else commentLength 0 r + 1

/-- Whether what follows an opening angle bracket makes it markup. -/
def opensMarkup : Bytes → Bool
  | b :: _ => isLetter b || b == 0x2F || b == 0x21 || b == 0x3F
  | [] => false

/-- The number of bytes of text before the next markup. -/
def textLength : Bytes → Nat
  | [] => 0
  | b :: r => if b = 0x3C ∧ opensMarkup r then 0 else textLength r + 1

/-- The text without the first byte if that is white space or, for a key, a slash. -/
def dropOne (p : UInt8 → Bool) : Bytes → Bytes
  | b :: r => if p b then r else b :: r
  | [] => []

/-- Reads the key of an attribute. -/
def readKey (text : Bytes) : Bytes × Bytes :=
  let stops := fun (b : UInt8) => endsTagName b || b == 0x3D
  (text.takeWhile (!stops ·),
    dropOne (fun b => isTagSpace b || b == 0x2F) (text.dropWhile (!stops ·)))

/-- Reads a value behind the equals sign: in quotes, or up to white space or the end of the
tag. -/
def readValue (text : Bytes) : Bytes × Bytes :=
  match text.dropWhile isTagSpace with
  | [] => ([], [])
  | b :: r =>
    if b = 0x22 ∨ b = 0x27 then (r.takeWhile (· != b), (r.dropWhile (· != b)).drop 1)
    else
      let stops := fun (b : UInt8) => isTagSpace b || b == 0x3E
      ((b :: r).takeWhile (!stops ·), dropOne isTagSpace ((b :: r).dropWhile (!stops ·)))

/-- Reads the value of an attribute, if it has one. -/
def readOptionalValue (text : Bytes) : Bytes × Bytes :=
  match text.dropWhile isTagSpace with
  | 0x3D :: r => readValue r
  | rest => ([], rest)

/-- Reads the attributes of a tag and the closing angle bracket, in at most `fuel` steps.
Attributes without a key are dropped. Nothing if the text ends first. -/
def readAttributes : (fuel : Nat) → Bytes → Option (List Attribute × Bytes)
  | 0, _ => none
  | _, [] => none
  | fuel + 1, b :: r =>
    if b = 0x3E then some ([], r)
    else
      let (key, rest) := readKey (b :: r)
      let (value, rest) := readOptionalValue rest
      match readAttributes fuel (rest.dropWhile isTagSpace) with
      | none => none
      | some (more, rest) =>
        let attributes :=
          if key.isEmpty then [] else [⟨Bytes.toLowerAscii key, CharRef.unescape value⟩]
        some (attributes ++ more, rest)

/-- Reads a tag from its name on. -/
def readTag (text : Bytes) : Option (Tag × Bytes) :=
  let name := text.takeWhile (!endsTagName ·)
  match readAttributes (text.length + 1) ((text.drop name.length).dropWhile isTagSpace) with
  | none => none
  | some (attributes, rest) => some (⟨Bytes.toLowerAscii name, attributes⟩, rest)

/-- The first `count` bytes as a token, and what follows. -/
def cut (kind : TokenKind) (count : Nat) (text : Bytes) : MarkupToken × Bytes :=
  (⟨kind, text.take count⟩, text.drop count)

/-- Whether the bytes of a tag end with a slash before the angle bracket. -/
def endsWithSlash (raw : Bytes) : Bool :=
  match raw.reverse with
  | _ :: 0x2F :: _ => true
  | _ => false

/-- A start tag from its angle bracket on. -/
def readStartTag (text : Bytes) : MarkupToken × Bytes :=
  match readTag text.tail with
  | none => cut .cutTag text.length text
  | some (tag, rest) =>
    let count := text.length - rest.length
    cut (if endsWithSlash (text.take count) then .selfClosingTag tag else .startTag tag) count text

/-- An end tag from its angle bracket on; `name` is the text behind the slash. -/
def readEndTag (text name : Bytes) : MarkupToken × Bytes :=
  match name with
  | [] => cut .text text.length text
  | b :: _ =>
    if isLetter b then
      match readTag name with
      | none => cut .cutTag text.length text
      | some (_, rest) => cut .endTag (text.length - rest.length) text
    else cut .remark (throughAngle text) text

/-- The markup token at the front of a text. -/
def readMarkup (text : Bytes) : MarkupToken × Bytes :=
  match text with
  | 0x3C :: 0x2F :: name => readEndTag text name
  | 0x3C :: 0x21 :: 0x2D :: 0x2D :: rest => cut .remark (4 + commentLength 2 rest) text
  | 0x3C :: 0x21 :: _ | 0x3C :: 0x3F :: _ => cut .remark (throughAngle text) text
  | _ => readStartTag text

/-- The next token; `raw` is the element whose raw text comes first, if any. -/
def readNext (raw : Option Bytes) (text : Bytes) : MarkupToken × Bytes :=
  let rawCount := (raw.map (rawTextLength · text)).getD 0
  if 0 < rawCount then cut .text rawCount text
  else
    let count := textLength text
    if 0 < count then cut .text count text else readMarkup text

/-- The element whose raw text follows a token. -/
def TokenKind.rawElement? : TokenKind → Option Bytes
  | startTag tag | selfClosingTag tag => if isRawElement tag.name then some tag.name else none
  | _ => none

/-- The tokens of a text, in at most `fuel` steps. -/
def tokensWith : (fuel : Nat) → (raw : Option Bytes) → Bytes → List MarkupToken
  | 0, _, _ => []
  | _, _, [] => []
  | fuel + 1, raw, text =>
    let (token, rest) := readNext raw text
    token :: tokensWith fuel token.kind.rawElement? rest

/-- The tokens of a document. Each has at least one byte. -/
def tokens (document : Bytes) : List MarkupToken := tokensWith document.length none document

end ScriptTidy.Markup
