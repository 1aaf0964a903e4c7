import ScriptTidy.Scanner.Lexeme
import ScriptTidy.Scanner.Trivia

/-!
# The equations of the readers

Readers that recurse on what is left of a source match on their next character together with the
fact that something was read, since that is why the recursion ends. The equations here leave the
fact out: in this form a character that is known, at this cursor or at another, can be put in.

* `skipWhile_eq` : characters of one class.
* `readBraced_eq`, `readName_eq`, `readString_eq`, `readRegexpBody_eq`, `readChunk_eq` : lexemes.
* `findCommentEnd_eq`, `readTrivia_eq` : comments and white space.
-/

namespace ScriptTidy

namespace Cursor

theorem skipWhile_eq (p : Char → Bool) (c : Cursor) : c.skipWhile p =
    match c.next? with
    | some (ch, d) => if p ch then d.skipWhile p else c
    | none => c := by
  rw [skipWhile]
  split
  next hn => rw [hn]
  next hn => rw [hn]

end Cursor

namespace Scanner

theorem readBraced_eq (value : Option Nat) (c : Cursor) : readBraced value c =
    match c.next? with
    | none => .error .badEscape
    | some (ch, d) =>
      if ch = '\x7d' then
        match value with
        | some v => .ok (v, d)
        | none => .error .badEscape
      else match hexValue? ch with
        | none => .error .badEscape
        | some x =>
          let v := value.getD 0 * 16 + x
          if 0x10FFFF < v then .error .codePointOutOfBounds else readBraced (some v) d := by
  rw [readBraced]
  split
  next hn => rw [hn]
  next hn => exact hn ▸ rfl

theorem readName_eq (first : Bool) (c : Cursor) : readName first c =
    match c.next? with
    | none => .ok ([], c)
    | some (ch, d) =>
      if ch = '\\' then
        if d.peek? = some 'u' then
          match readCodePoint d.advance with
          | .error f => .error ⟨c.position, f⟩
          | .ok (n, e) =>
            if continuesName first n then withText (Utf8.encode n) (readName false e)
            else .error ⟨c.position, .invalidUnicodeEscape⟩
        else .error ⟨c.position, .unicodeEscapeExpected⟩
      else if continuesName first ch.toNat then
        withText (Utf8.encodeChar ch) (readName false d)
      else .ok ([], c) := by
  rw [readName]
  split
  next hn => rw [hn]
  next hn =>
    rw [hn]
    dsimp only
    congr 1
    congr 1
    split
    next he => rw [he]
    next he => rw [he]

theorem readString_eq (quote : Char) (start : Position) (c : Cursor) : readString quote start c =
    match c.next? with
    | none => .error ⟨start, .unterminatedString⟩
    | some (ch, d) =>
      if ch = quote then .ok ([], d)
      else if ch = '\n' ∨ ch = '\r' then .error ⟨start, .unterminatedString⟩
      else if ch = '\\' then
        match readEscape d with
        | .error f => .error ⟨c.position, f⟩
        | .ok (text, e) => withText text (readString quote start e)
      else withText (Utf8.encodeChar ch) (readString quote start d) := by
  rw [readString]
  split
  next hn => rw [hn]
  next hn =>
    rw [hn]
    dsimp only
    congr 1
    congr 1
    congr 1
    split
    next he => rw [he]
    next he => rw [he]

theorem readRegexpBody_eq (start : Position) (escaped inClass : Bool) (c : Cursor) :
    readRegexpBody start escaped inClass c =
    match c.next? with
    | none => .error ⟨start, .unterminatedRegexp⟩
    | some (ch, d) =>
      if isLineTerminator ch then .error ⟨start, .unterminatedRegexp⟩
      else if escaped then readRegexpBody start false inClass d
      else if ch = '/' ∧ !inClass then .ok d
      else readRegexpBody start (ch == '\\') (ch == '[' || (inClass && ch != ']')) d := by
  rw [readRegexpBody]
  split
  next hn => rw [hn]
  next hn => rw [hn]

theorem readChunk_eq (start : Position) (c : Cursor) : readChunk start c =
    match c.next? with
    | none => .error ⟨start, .unterminatedTemplate⟩
    | some (ch, d) =>
      if chunkEnds c then .ok c
      else if ch = '\\' then readChunk start d.advance
      else readChunk start d := by
  rw [readChunk]
  split
  next hn => rw [hn]
  next hn => rw [hn]

theorem findCommentEnd_eq (newline : Bool) (c : Cursor) : findCommentEnd newline c =
    match c.next? with
    | none => none
    | some (ch, d) =>
      if ch = '*' ∧ d.peek? = some '/' then some (c, newline)
      else findCommentEnd (newline || isLineTerminator ch) d := by
  rw [findCommentEnd]
  split
  next hn => rw [hn]
  next hn => rw [hn]

theorem readTrivia_eq (newline : Bool) (c : Cursor) : readTrivia newline c =
    match c.next? with
    | none => ⟨[], newline, .ok c⟩
    | some (ch, d) =>
      if isLineTerminator ch then readTrivia true d
      else if isScriptSpace ch then readTrivia newline d
      else if ch = '/' then
        if d.peek? = some '*' then
          match findCommentEnd newline (c.advanceBy 2) with
          | none => ⟨[], newline, .error ⟨c.position, .unterminatedComment⟩⟩
          | some (close, newline) =>
            (readTrivia newline (close.advanceBy 2)).withComment
              (commentToken .blockComment c (c.advanceBy 2) close (close.advanceBy 2))
        else if d.peek? = some '/' then
          (readTrivia newline (readLineComment .lineComment c).2).withComment
            (readLineComment .lineComment c).1
        else ⟨[], newline, .ok c⟩
      else ⟨[], newline, .ok c⟩ := by
  rw [readTrivia]
  split
  next hn => rw [hn]
  next hn =>
    rw [hn]
    dsimp only
    split
    · rfl
    · split
      · rfl
      · split
        · split
          · split
            next he => rw [he]
            next he => rw [he]
          · rfl
        · rfl

end Scanner

end ScriptTidy
