import ScriptTidy.Text.Space
import ScriptTidy.Text.Utf8
import ScriptTidy.Token.Basic

/-!
# The reading position in a source

A cursor is what is left to read of a source together with the line, the column and the byte
offset of the next character. All reading goes through `Cursor.next?`, so every cursor that a
scan passes through is reached from the first one character by character, and the position is
a function of what was read. A carriage return in front of a line feed counts as a column, and
the line feed ends the line; on its own it ends the line itself.
-/

namespace ScriptTidy

/-- What is left to read, and where in the source it starts. -/
structure Cursor where
  rest : List Glyph
  line : Nat
  column : Nat
  offset : Nat
deriving DecidableEq, Repr

namespace Cursor

/-- The start of a source. -/
def ofSource (source : Bytes) : Cursor := ⟨Utf8.glyphs source, 1, 0, 0⟩

/-- The position of the next character, or of the end of the source. -/
def position (c : Cursor) : Position := ⟨c.line, c.column, c.offset⟩

/-- The next character. -/
def peek? (c : Cursor) : Option Char := c.rest.head?.map (·.char)

/-- The character after the next one. -/
def peekSecond? (c : Cursor) : Option Char := c.rest.tail.head?.map (·.char)

/-- Whether nothing is left to read. -/
def atEnd (c : Cursor) : Bool := c.rest.isEmpty

/-- The cursor behind the glyph `g`, which is followed by `rest`. -/
def past (c : Cursor) (g : Glyph) (rest : List Glyph) : Cursor :=
  let offset := c.offset + g.bytes.length
  if g.char == '\r' && rest.head?.map (·.char) == some '\n' then
    ⟨rest, c.line, c.column + 1, offset⟩
  else if isLineTerminator g.char then ⟨rest, c.line + 1, 0, offset⟩
  else ⟨rest, c.line, c.column + utf16Width g.char, offset⟩

/-- The next character and the cursor behind it. -/
def next? (c : Cursor) : Option (Char × Cursor) :=
  match c.rest with
  | [] => none
  | g :: rest => some (g.char, c.past g rest)

/-- The cursor behind the next character; at the end it stays. -/
def advance (c : Cursor) : Cursor :=
  match c.next? with
  | some (_, d) => d
  | none => c

/-- The cursor `count` characters further on. -/
def advanceBy : (count : Nat) → Cursor → Cursor
  | 0, c => c
  | n + 1, c => advanceBy n c.advance

theorem past_rest (c : Cursor) (g : Glyph) (rest : List Glyph) : (c.past g rest).rest = rest := by
  unfold past
  split
  · rfl
  · split <;> rfl

/-- Reading a character leaves less to read. -/
theorem next?_length {c d : Cursor} {ch : Char} (h : c.next? = some (ch, d)) :
    d.rest.length < c.rest.length := by
  unfold next? at h
  split at h
  next => cases h
  next g rest hr =>
    cases h
    simp [past_rest, hr]

/-- Advancing never leaves more to read. -/
theorem advance_length_le (c : Cursor) : c.advance.rest.length ≤ c.rest.length := by
  unfold advance
  split
  next h => exact Nat.le_of_lt (next?_length h)
  next => exact Nat.le_refl _

/-- Behind all characters up to the first that does not satisfy `p`. -/
def skipWhile (p : Char → Bool) (c : Cursor) : Cursor :=
  match _h : c.next? with
  | some (ch, d) => if p ch then d.skipWhile p else c
  | none => c
termination_by c.rest.length
decreasing_by exact next?_length _h

/-- Skipping never leaves more to read. -/
theorem skipWhile_length_le (p : Char → Bool) (c : Cursor) :
    (c.skipWhile p).rest.length ≤ c.rest.length := by
  fun_induction skipWhile p c with
  | case1 c ch d h hp ih => exact Nat.le_trans ih (Nat.le_of_lt (next?_length h))
  | case2 => exact Nat.le_refl _
  | case3 => exact Nat.le_refl _

/-- The bytes of the glyphs that make up the next `count` bytes. -/
def bytesUpTo : (count : Nat) → List Glyph → Bytes
  | _, [] => []
  | count, g :: rest =>
    if count = 0 then [] else g.bytes ++ bytesUpTo (count - g.bytes.length) rest

/-- The text between this cursor and a later one of the same source. -/
def textTo (c d : Cursor) : Bytes := bytesUpTo (d.offset - c.offset) c.rest

end Cursor

end ScriptTidy
