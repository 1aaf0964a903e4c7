import ScriptTidy.Text.Utf8
import ScriptTidy.Text.Decimal
import ScriptTidy.Text.Printable

/-!
# Quoted texts

Messages show texts and characters in quotes. The quote and the backslash are escaped, the
usual control characters have letters, printable characters stand for themselves, and all else
is a numeric escape: `\xHH` for ASCII and for stray bytes, `\uHHHH` and `\UHHHHHHHH` beyond.
-/

namespace ScriptTidy.Quoted

/-- The letter that escapes a control character. -/
def escapeLetter? (n : Nat) : Option UInt8 :=
  match n with
  | 0x07 => some 0x61
  | 0x08 => some 0x62
  | 0x0C => some 0x66
  | 0x0A => some 0x6E
  | 0x0D => some 0x72
  | 0x09 => some 0x74
  | 0x0B => some 0x76
  | _ => none

/-- A character between quotes of the kind `quote`, where the code points of `plain` stand for
themselves. -/
def escapeCharWith (plain : Nat → Bool) (quote : Char) (c : Char) : Bytes :=
  if c == quote || c == '\\' then [0x5C, Bytes.ofAscii c]
  else if plain c.toNat then Utf8.encodeChar c
  else match escapeLetter? c.toNat with
    | some letter => [0x5C, letter]
    | none =>
      if c.toNat < 0x80 then utf8 "\\x" ++ hexPadded lowerHexDigit 2 c.toNat
      else if c.toNat < 0x10000 then utf8 "\\u" ++ hexPadded lowerHexDigit 4 c.toNat
      else utf8 "\\U" ++ hexPadded lowerHexDigit 8 c.toNat

/-- A glyph between double quotes: a stray byte is shown by its number. -/
def escapeGlyph (plain : Nat → Bool) (g : Glyph) : Bytes :=
  match g.char == replacementChar, g.bytes with
  | true, [b] => utf8 "\\x" ++ hexPadded lowerHexDigit 2 b.toNat
  | _, _ => escapeCharWith plain '"' g.char

/-- The text in double quotes, where the code points of `plain` stand for themselves. -/
def quoteWith (plain : Nat → Bool) (text : Bytes) : Bytes :=
  [0x22] ++ (Utf8.glyphs text).flatMap (escapeGlyph plain) ++ [0x22]

/-- The character in single quotes, where the code points of `plain` stand for themselves. -/
def quoteCharWith (plain : Nat → Bool) (c : Char) : Bytes :=
  [0x27] ++ escapeCharWith plain '\'' c ++ [0x27]

/-- The text in double quotes. -/
def quote (text : Bytes) : Bytes := quoteWith isPrintable text

/-- The character in single quotes. -/
def quoteChar (c : Char) : Bytes := quoteCharWith isPrintable c

/-- The printable ASCII characters. -/
def isPlainAscii (n : Nat) : Bool := n < 0x80 && isPrintable n

end ScriptTidy.Quoted
