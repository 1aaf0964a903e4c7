import ScriptTidy.Text.CodePointSet
import ScriptTidy.Text.Utf8

/-!
# White space

Scripts and markup differ in what they take for white space. `isScriptSpace` and
`isLineTerminator` are the rules of scripts; `isBlank` is the rule by which texts are trimmed.
-/

namespace ScriptTidy

/-- The space separators beyond ASCII. -/
def spaceSeparators : CodePointSet := [
  (0xA0, 0xA0), (0x1680, 0x1680), (0x2000, 0x200A), (0x202F, 0x202F), (0x205F, 0x205F),
  (0x3000, 0x3000)]

/-- The byte order mark, also a zero width space. -/
def byteOrderMark : Char := Char.ofNat 0xFEFF

/-- Line separator, a line terminator of scripts. -/
def lineSeparator : Char := Char.ofNat 0x2028

/-- Paragraph separator, a line terminator of scripts. -/
def paragraphSeparator : Char := Char.ofNat 0x2029

/-- The characters that end a line of a script. -/
def isLineTerminator (c : Char) : Bool :=
  c == '\n' || c == '\r' || c == lineSeparator || c == paragraphSeparator

/-- The characters of a script that separate tokens within a line. -/
def isScriptSpace (c : Char) : Bool :=
  c == ' ' || c == '\t' || c.toNat == 0x0B || c.toNat == 0x0C || c == byteOrderMark
    || spaceSeparators.has c.toNat

/-- White space in texts: the ASCII blanks and line ends, next line, the space separators and
the line and paragraph separators. -/
def isBlank (c : Char) : Bool :=
  (0x09 ≤ c.toNat && c.toNat ≤ 0x0D) || c == ' ' || c.toNat == 0x85
    || c == lineSeparator || c == paragraphSeparator || spaceSeparators.has c.toNat

/-- The text without white space at its two ends. -/
def trimBlank (text : Bytes) : Bytes :=
  let blank := fun (g : Glyph) => isBlank g.char
  (((Utf8.glyphs text).dropWhile blank).reverse.dropWhile blank).reverse.flatMap (·.bytes)

end ScriptTidy
