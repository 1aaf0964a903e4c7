import ScriptTidy.Token.Basic

/-!
# Lexical errors

Why a source cannot be split into tokens, and where.
-/

namespace ScriptTidy

/-- Why reading a token fails. -/
inductive LexFault
  | unterminatedComment
  | unterminatedString
  | unterminatedRegexp
  | unterminatedTemplate
  | unexpectedCharacter (c : Char)
  | unicodeEscapeExpected
  | invalidUnicodeEscape
  | badEscape
  | codePointOutOfBounds
  | radixDigitExpected (base : Nat)
  | invalidNumber
  | identifierAfterNumber
deriving DecidableEq, Repr

/-- The text of the error. -/
def LexFault.message : LexFault → Bytes
  | unterminatedComment => utf8 "unterminated comment"
  | unterminatedString => utf8 "unterminated string constant"
  | unterminatedRegexp => utf8 "unterminated regular expression"
  | unterminatedTemplate => utf8 "unterminated template"
  | unexpectedCharacter c => utf8 "unexpected character " ++ Quoted.quoteChar c
  | unicodeEscapeExpected => utf8 "expecting unicode escape sequence \\uXXXX"
  | invalidUnicodeEscape => utf8 "invalid unicode escape"
  | badEscape => utf8 "bad character escape sequence"
  | codePointOutOfBounds => utf8 "code point out of bounds"
  | radixDigitExpected base => utf8 "expected number in radix " ++ natDecimal base
  | invalidNumber => utf8 "invalid number"
  | identifierAfterNumber => utf8 "identifier directly after number"

/-- A fault and the place it is reported at. -/
structure LexError where
  pos : Position
  fault : LexFault
deriving DecidableEq, Repr

/-- The error in the form that messages are made from. -/
def LexError.toPositioned (e : LexError) : PositionedError := ⟨e.pos, e.fault.message⟩

end ScriptTidy
