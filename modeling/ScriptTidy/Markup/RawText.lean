import ScriptTidy.Text.Bytes

/-!
# Raw text in markup

Inside some elements markup has no meaning until the element's own end tag. Scripts are special
among them: behind `<!--` they are *escaped*, and in escaped text another script tag starts
*doubly escaped* text, in which the end tag only goes back to escaped text.
-/

namespace ScriptTidy.Markup

/-- White space in tags. -/
def isTagSpace (b : UInt8) : Bool := b == 0x20 || b == 0x0A || b == 0x0D || b == 0x09 || b == 0x0C

/-- What may follow the name of a tag. -/
def endsTagName (b : UInt8) : Bool := isTagSpace b || b == 0x2F || b == 0x3E

/-- Whether the byte is an ASCII letter. -/
def isLetter (b : UInt8) : Bool := (0x61 ≤ b && b ≤ 0x7A) || (0x41 ≤ b && b ≤ 0x5A)

/-- Whether the text starts with a tag name in any case, and the name ends there. -/
def startsWithName (name text : Bytes) : Bool :=
  Bytes.toLowerAscii (text.take name.length) == name
    && (text.drop name.length).head?.any endsTagName

/-- Whether the text starts with the end tag of an element. -/
def startsWithEndTag (name text : Bytes) : Bool :=
  match text with
  | 0x3C :: 0x2F :: rest => startsWithName name rest
  | _ => false

/-- The number of bytes up to the end tag of an element. -/
def rawLength (name : Bytes) : Bytes → Nat
  | [] => 0
  | b :: r => if startsWithEndTag name (b :: r) then 0 else rawLength name r + 1

/-- How the text of a script is read. Escaped texts count the dashes just read, up to two. -/
inductive ScriptState
  | data
  | escaped (dashes : Nat)
  | doubleEscaped (dashes : Nat)
deriving DecidableEq, Repr

/-- The name of the element that holds scripts. -/
def scriptName : Bytes := utf8 "script"

/-- How the text of a script goes on behind the byte `b`, which `r` follows: the next state and
how many further bytes are passed over. Nothing if the script ends in front of `b`. -/
def ScriptState.step (s : ScriptState) (b : UInt8) (r : Bytes) : Option (ScriptState × Nat) :=
  match s with
  | .data =>
    if startsWithEndTag scriptName (b :: r) then none
    else if b = 0x3C ∧ (utf8 "!--").isPrefixOf r then some (.escaped 2, 3)
    else some (.data, 0)
  | .escaped dashes =>
    if b = 0x2D then some (.escaped (min (dashes + 1) 2), 0)
    else if b = 0x3E ∧ dashes = 2 then some (.data, 0)
    else if b = 0x3C then
      match r with
      | [] => some (.escaped 0, 0)
      | 0x2F :: rest => if startsWithName scriptName rest then none else some (.escaped 0, 1)
      | c :: _ =>
        if isLetter c then
          if startsWithName scriptName r then some (.doubleEscaped 0, scriptName.length + 1)
          else some (.escaped 0, 0)
        else some (.data, 0)
    else some (.escaped 0, 0)
  | .doubleEscaped dashes =>
    if b = 0x2D then some (.doubleEscaped (min (dashes + 1) 2), 0)
    else if b = 0x3E ∧ dashes = 2 then some (.data, 0)
    else if startsWithEndTag scriptName (b :: r) then some (.escaped 0, scriptName.length + 2)
    else some (.doubleEscaped 0, 0)

/-- The number of bytes of a script's text. -/
def scriptLength (s : ScriptState) : Bytes → Nat
  | [] => 0
  | b :: r =>
    match s.step b r with
    | none => 0
    | some (s, more) => 1 + min more r.length + scriptLength s (r.drop more)
termination_by text => text.length
decreasing_by grind

/-- The number of bytes of the raw text of an element. Plain text never ends. -/
def rawTextLength (name text : Bytes) : Nat :=
  if name = utf8 "plaintext" then text.length
  else if name = scriptName then scriptLength .data text
  else rawLength name text

/-- The elements whose text is raw. -/
def rawElements : List String :=
  ["iframe", "noembed", "noframes", "noscript", "plaintext", "script", "style", "textarea",
   "title", "xmp"]

/-- Whether an element's text is raw. -/
def isRawElement (name : Bytes) : Bool := rawElements.any fun e => utf8 e == name

end ScriptTidy.Markup
