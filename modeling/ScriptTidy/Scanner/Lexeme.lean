import ScriptTidy.Scanner.Escape
import ScriptTidy.Text.Identifier

/-!
# Reading names and literals

Readers for the tokens that are more than punctuation. Each starts at the first character of
its token, or just behind the opening delimiter, and returns the cursor behind the last one.
The raw text of numbers, regular expressions and template chunks is kept as it stands between
the two cursors; names and strings are decoded.
-/

namespace ScriptTidy.Scanner

open Cursor (next? next?_length advance_length_le)

/-- Puts decoded text in front of the text that the rest of a token stands for. -/
def withText (text : Bytes) (r : Except LexError (Bytes × Cursor)) :
    Except LexError (Bytes × Cursor) :=
  match r with
  | .ok (more, c) => .ok (text ++ more, c)
  | .error e => .error e

/-- Whether a name goes on with the code point, or may start with it. -/
def continuesName (first : Bool) (n : Nat) : Bool :=
  if first then isIdentifierStart n else isIdentifierPart n

/-- The characters of a name, with escapes decoded. The name ends at the first character that
cannot continue it. -/
def readName (first : Bool) (c : Cursor) : Except LexError (Bytes × Cursor) :=
  match _h : c.next? with
  | none => .ok ([], c)
  | some (ch, d) =>
    if ch = '\\' then
      if d.peek? = some 'u' then
        match _h' : readCodePoint d.advance with
        | .error f => .error ⟨c.position, f⟩
        | .ok (n, e) =>
          if continuesName first n then withText (Utf8.encode n) (readName false e)
          else .error ⟨c.position, .invalidUnicodeEscape⟩
      else .error ⟨c.position, .unicodeEscapeExpected⟩
    else if continuesName first ch.toNat then
      withText (Utf8.encodeChar ch) (readName false d)
    else .ok ([], c)
termination_by c.rest.length
decreasing_by
  · exact Nat.lt_of_le_of_lt
      (Nat.le_trans (readCodePoint_length_le _h') (advance_length_le d)) (next?_length _h)
  · exact next?_length _h

/-- Behind the digits of the base and the separators between them. -/
def skipDigits (base : Nat) (c : Cursor) : Cursor :=
  c.skipWhile fun ch => isDigitIn base ch || ch == '_'

/-- Whether the next character is a digit of the base. -/
def digitAhead (base : Nat) (c : Cursor) : Bool := c.peek?.any (isDigitIn base)

/-- Behind the next character if it is one of `cs`. -/
def skipOneOf (cs : List Char) (c : Cursor) : Cursor :=
  if c.peek?.any (cs.contains ·) then c.advance else c

/-- The base that the two first characters of a number announce, if any. -/
def radixOf? (c : Cursor) : Option Nat :=
  if c.peek? = some '0' then
    match c.peekSecond? with
    | some 'x' | some 'X' => some 16
    | some 'o' | some 'O' => some 8
    | some 'b' | some 'B' => some 2
    | _ => none
  else none

/-- Behind the digits of a number with an announced base. -/
def readRadixNumber (base : Nat) (c : Cursor) : Except LexError Cursor :=
  let d := c.advanceBy 2
  if digitAhead base d then .ok (skipOneOf ['n'] (skipDigits base d))
  else .error ⟨c.position, .radixDigitExpected base⟩

/-- Behind the exponent, if there is one. The number starts at `start`. -/
def readExponent (start : Position) (c : Cursor) : Except LexError Cursor :=
  if c.peek?.any (['e', 'E'].contains ·) then
    let d := skipOneOf ['+', '-'] c.advance
    if digitAhead 10 d then .ok (skipDigits 10 d) else .error ⟨start, .invalidNumber⟩
  else .ok c

/-- Behind a decimal number: an integer with the suffix `n`, or digits with a fraction and an
exponent. -/
def readDecimalNumber (c : Cursor) : Except LexError Cursor :=
  let d := skipDigits 10 c
  if d.peek? = some 'n' then .ok d.advance
  else readExponent c.position (if d.peek? = some '.' then skipDigits 10 d.advance else d)

/-- Behind a number. No name may follow it directly. -/
def readNumber (c : Cursor) : Except LexError Cursor :=
  let number := match radixOf? c with
    | some base => readRadixNumber base c
    | none => readDecimalNumber c
  match number with
  | .error e => .error e
  | .ok d =>
    if d.peek?.any fun ch => isIdentifierStart ch.toNat then
      .error ⟨d.position, .identifierAfterNumber⟩
    else .ok d

/-- The decoded contents of a string up to the quote, and the cursor behind it. The string
started at `start`. -/
def readString (quote : Char) (start : Position) (c : Cursor) :
    Except LexError (Bytes × Cursor) :=
  match _h : c.next? with
  | none => .error ⟨start, .unterminatedString⟩
  | some (ch, d) =>
    if ch = quote then .ok ([], d)
    else if ch = '\n' ∨ ch = '\r' then .error ⟨start, .unterminatedString⟩
    else if ch = '\\' then
      match _h' : readEscape d with
      | .error f => .error ⟨c.position, f⟩
      | .ok (text, e) => withText text (readString quote start e)
    else withText (Utf8.encodeChar ch) (readString quote start d)
termination_by c.rest.length
decreasing_by
  · exact Nat.lt_of_le_of_lt (readEscape_length_le _h') (next?_length _h)
  · exact next?_length _h

/-- Behind the slash that closes a regular expression which started at `start`. A slash in a
class of characters or behind a backslash does not close it. -/
def readRegexpBody (start : Position) (escaped inClass : Bool) (c : Cursor) :
    Except LexError Cursor :=
  match _h : c.next? with
  | none => .error ⟨start, .unterminatedRegexp⟩
  | some (ch, d) =>
    if isLineTerminator ch then .error ⟨start, .unterminatedRegexp⟩
    else if escaped then readRegexpBody start false inClass d
    else if ch = '/' ∧ !inClass then .ok d
    else readRegexpBody start (ch == '\\') (ch == '[' || (inClass && ch != ']')) d
termination_by c.rest.length
decreasing_by all_goals exact next?_length _h

/-- Behind a regular expression and its flags. -/
def readRegexp (c : Cursor) : Except LexError Cursor :=
  match readRegexpBody c.position false false c.advance with
  | .error e => .error e
  | .ok d => .ok (d.skipWhile fun ch => isIdentifierPart ch.toNat)

/-- Whether a template's text ends here: at its closing quote or at a substitution. -/
def chunkEnds (c : Cursor) : Bool :=
  c.peek? == some '\x60' || (c.peek? == some '$' && c.peekSecond? == some '\x7b')

/-- The end of the text of a template chunk that started at `start`. -/
def readChunk (start : Position) (c : Cursor) : Except LexError Cursor :=
  match _h : c.next? with
  | none => .error ⟨start, .unterminatedTemplate⟩
  | some (ch, d) =>
    if chunkEnds c then .ok c
    else if ch = '\\' then readChunk start d.advance
    else readChunk start d
termination_by c.rest.length
decreasing_by
  · exact Nat.lt_of_le_of_lt (advance_length_le d) (next?_length _h)
  · exact next?_length _h

end ScriptTidy.Scanner
