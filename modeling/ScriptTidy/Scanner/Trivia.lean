import ScriptTidy.Scanner.Escape

/-!
# What stands between two tokens

White space, line ends and comments. `readTrivia` skips all of it and reports the comments and
whether a line ended on the way, because some tokens read differently at the start of a line.
-/

namespace ScriptTidy.Scanner

open Cursor (next? next?_length advance_length_le skipWhile_length_le)

/-- A comment of kind `kind` that started at `start`, with its text between `from` and `upTo`,
and ends at `stop`. -/
def commentToken (kind : Kind) (start textStart textStop stop : Cursor) : Token :=
  ⟨kind, textStart.textTo textStop, start.position, stop.position⟩

/-- The comment from here to the end of the line, behind its two opening characters. -/
def readLineComment (kind : Kind) (c : Cursor) : Token × Cursor :=
  let d := c.skipWhile fun ch => !isLineTerminator ch
  (commentToken kind c (c.advanceBy 2) d d, d)

/-- The next end of a block comment, and whether a line ends before it. -/
def findCommentEnd (newline : Bool) (c : Cursor) : Option (Cursor × Bool) :=
  match _h : c.next? with
  | none => none
  | some (ch, d) =>
    if ch = '*' ∧ d.peek? = some '/' then some (c, newline)
    else findCommentEnd (newline || isLineTerminator ch) d
termination_by c.rest.length
decreasing_by exact next?_length _h

/-- What was skipped between two tokens: the comments in order, whether a line ended, and the
start of the next token. A block comment without an end is an error at its start. -/
structure Trivia where
  comments : List Token
  newline : Bool
  outcome : Except LexError Cursor

/-- Trivia with one more comment in front. -/
def Trivia.withComment (comment : Token) (t : Trivia) : Trivia :=
  { t with comments := comment :: t.comments }

theorem findCommentEnd_length_le {newline b : Bool} {c d : Cursor}
    (h : findCommentEnd newline c = some (d, b)) : d.rest.length ≤ c.rest.length := by
  fun_induction findCommentEnd newline c with
  | case1 => cases h
  | case2 => cases h; exact Nat.le_refl _
  | case3 newline c ch e hn hc ih => exact Nat.le_trans (ih h) (Nat.le_of_lt (next?_length hn))

/-- Advancing past two characters, the first of which is there, leaves less to read. -/
theorem advanceBy_two_length_lt {c d : Cursor} {ch : Char} (h : c.next? = some (ch, d)) :
    (c.advanceBy 2).rest.length < c.rest.length := by
  have h1 : c.advance = d := by simp [Cursor.advance, h]
  show (c.advance.advance).rest.length < c.rest.length
  rw [h1]
  exact Nat.lt_of_le_of_lt (advance_length_le d) (next?_length h)

/-- A line comment that has at least one character leaves less to read. -/
theorem readLineComment_length_lt {kind : Kind} {c d : Cursor} {ch : Char}
    (h : c.next? = some (ch, d)) (hc : isLineTerminator ch = false) :
    (readLineComment kind c).2.rest.length < c.rest.length := by
  show (c.skipWhile _).rest.length < _
  unfold Cursor.skipWhile
  split
  next e f hn =>
    rw [h] at hn
    cases hn
    rw [if_pos (by simp [hc])]
    exact Nat.lt_of_le_of_lt (skipWhile_length_le _ d) (next?_length h)
  next hn => rw [h] at hn; cases hn

/-- Skips white space, line ends and comments. -/
def readTrivia (newline : Bool) (c : Cursor) : Trivia :=
  match _h : c.next? with
  | none => ⟨[], newline, .ok c⟩
  | some (ch, d) =>
    if isLineTerminator ch then readTrivia true d
    else if isScriptSpace ch then readTrivia newline d
    else if _hs : ch = '/' then
      if d.peek? = some '*' then
        match _he : findCommentEnd newline (c.advanceBy 2) with
        | none => ⟨[], newline, .error ⟨c.position, .unterminatedComment⟩⟩
        | some (close, newline) =>
          let stop := close.advanceBy 2
          (readTrivia newline stop).withComment
            (commentToken .blockComment c (c.advanceBy 2) close stop)
      else if d.peek? = some '/' then
        let comment := readLineComment .lineComment c
        (readTrivia newline comment.2).withComment comment.1
      else ⟨[], newline, .ok c⟩
    else ⟨[], newline, .ok c⟩
termination_by c.rest.length
decreasing_by
  · exact next?_length _h
  · exact next?_length _h
  · exact Nat.lt_of_le_of_lt
      (Nat.le_trans (advanceBy_length_le 2 close) (findCommentEnd_length_le _he))
      (advanceBy_two_length_lt _h)
  · exact readLineComment_length_lt _h (by subst _hs; decide)

/-- Skips what stands before the first token of a source: a first line that starts with `#!`
is a comment too. -/
def readLeadingTrivia (c : Cursor) : Trivia :=
  if c.peek? = some '#' ∧ c.peekSecond? = some '!' then
    let comment := readLineComment .hashbang c
    (readTrivia false comment.2).withComment comment.1
  else readTrivia false c

end ScriptTidy.Scanner
