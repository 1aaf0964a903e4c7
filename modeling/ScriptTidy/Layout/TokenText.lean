import ScriptTidy.Token.Basic

/-!
# The text a token is written as

Names, numbers, regular expressions and template chunks are written as they were read. Strings
are written in single quotes with what needs an escape escaped.
-/

namespace ScriptTidy

namespace StringLiteral

/-- The escape of a character that cannot stand in a string, or would end it. -/
def escape? (c : Char) : Option Bytes :=
  match c.toNat with
  | 0x5C => some (utf8 "\\\\")
  | 0x0A => some (utf8 "\\n")
  | 0x0D => some (utf8 "\\r")
  | 0x09 => some (utf8 "\\t")
  | 0x0B => some (utf8 "\\v")
  | 0x0C => some (utf8 "\\f")
  | 0x00 => some (utf8 "\\x00")
  | 0x27 => some (utf8 "\\'")
  | 0x2028 => some (utf8 "\\u2028")
  | 0x2029 => some (utf8 "\\u2029")
  | _ => none

/-- The surrogate that three stray bytes stand for in the layout of UTF-8. -/
def surrogate? (g h k : Glyph) : Option Nat :=
  match g.bytes, h.bytes, k.bytes with
  | [a], [b], [c] =>
    if a = 0xED ∧ 0xA0 ≤ b ∧ b ≤ 0xBF ∧ Utf8.isTail c then
      some (0xD000 + Utf8.tailBits b * 0x40 + Utf8.tailBits c)
    else none
  | _, _, _ => none

/-- A glyph of a string as it is written between quotes. -/
def escapeGlyph (g : Glyph) : Bytes := (escape? g.char).getD g.bytes

/-- Glyphs of a string as they are written between quotes. The three bytes of a surrogate
become its escape; other stray bytes are kept. -/
def escapeGlyphs : List Glyph → Bytes
  | g :: h :: k :: rest =>
    match surrogate? g h k with
    | some n => utf8 "\\u" ++ hexPadded upperHexDigit 4 n ++ escapeGlyphs rest
    | none => escapeGlyph g ++ escapeGlyphs (h :: k :: rest)
  | g :: rest => escapeGlyph g ++ escapeGlyphs rest
  | [] => []

/-- The contents of a string as they are written between quotes. -/
def escape (value : Bytes) : Bytes := escapeGlyphs (Utf8.glyphs value)

/-- The string in single quotes. -/
def quote (value : Bytes) : Bytes := [0x27] ++ escape value ++ [0x27]

end StringLiteral

/-- The text a token is written as. -/
def Token.text (t : Token) : Bytes :=
  match t.kind with
  | .string => StringLiteral.quote t.value
  | .regexp | .template | .num | .name => t.value
  | .privateName => [0x23] ++ t.value
  | kind => if t.value.isEmpty then utf8 kind.label else t.value

end ScriptTidy
