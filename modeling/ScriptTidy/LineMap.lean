import ScriptTidy.Text.Utf8

/-!
# Line tables

A line table converts between byte offsets and pairs of line and column, both from zero. Lines
end at a line feed, a carriage return with or without a line feed behind it, and the Unicode
line and paragraph separators; columns count UTF-16 units.
-/

namespace ScriptTidy

/-- A text and the offsets at which its lines start. -/
structure LineMap where
  text : Bytes
  starts : List Nat

namespace LineMap

/-- The offsets behind the line ends of a text that starts at `offset`. -/
def startsFrom : (offset : Nat) → Bytes → List Nat
  | _, [] => []
  | o, 0x0A :: r => (o + 1) :: startsFrom (o + 1) r
  | o, 0x0D :: 0x0A :: r => (o + 2) :: startsFrom (o + 2) r
  | o, 0x0D :: r => (o + 1) :: startsFrom (o + 1) r
  | o, 0xE2 :: 0x80 :: 0xA8 :: r => (o + 3) :: startsFrom (o + 3) r
  | o, 0xE2 :: 0x80 :: 0xA9 :: r => (o + 3) :: startsFrom (o + 3) r
  | o, _ :: r => startsFrom (o + 1) r

/-- The line table of a text. -/
def ofText (text : Bytes) : LineMap := ⟨text, 0 :: startsFrom 0 text⟩

/-- The number of lines: one more than there are line ends. -/
def lineCount (m : LineMap) : Nat := m.starts.length

/-- The bytes from offset `a` up to offset `b`. -/
def slice (m : LineMap) (a b : Nat) : Bytes := (m.text.drop a).take (b - a)

/-- The UTF-16 width of a text. -/
def width (text : Bytes) : Nat :=
  (Utf8.glyphs text).foldr (fun g n => utf16Width g.char + n) 0

/-- The number of bytes that end a line. -/
def terminatorLength (line : Bytes) : Nat :=
  match line.reverse with
  | 0x0A :: 0x0D :: _ => 2
  | 0x0A :: _ => 1
  | 0x0D :: _ => 1
  | _ => 3

/-- Where the text of a line begins and ends, without what ends the line. There is none for a
line that the text does not have. -/
def lineBounds? (m : LineMap) (line : Int) : Option (Nat × Nat) :=
  if line < 0 then none
  else match m.starts[line.toNat]? with
    | none => none
    | some start =>
      match m.starts[line.toNat + 1]? with
      | some next => some (start, next - terminatorLength (m.slice start next))
      | none => some (start, m.text.length)

/-- The number of bytes of the leading glyphs that reach the column, all of them if they do
not reach it. -/
def bytesToColumn : (column : Int) → List Glyph → Nat
  | _, [] => 0
  | column, g :: gs =>
    if column ≤ 0 then 0 else g.bytes.length + bytesToColumn (column - utf16Width g.char) gs

/-- The offset of a column of a line; a column beyond the line is its end. -/
def offset? (m : LineMap) (line column : Int) : Option Nat :=
  match m.lineBounds? line with
  | none => none
  | some (start, stop) => some (start + bytesToColumn column (Utf8.glyphs (m.slice start stop)))

/-- The line and the column of an offset; an offset beyond the text is its end. -/
def lineColumn (m : LineMap) (offset : Int) : Nat × Nat :=
  let o := min offset.toNat m.text.length
  let line := (m.starts.tail.takeWhile (· ≤ o)).length
  (line, width (m.slice (m.starts.getD line 0) o))

end LineMap

end ScriptTidy
