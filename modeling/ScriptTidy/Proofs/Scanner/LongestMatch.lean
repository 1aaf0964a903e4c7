import ScriptTidy.Proofs.Scanner.Cover
import ScriptTidy.Proofs.Token.LongestPunctuator

/-!
# Punctuation by longest match

Where a token can only be a punctuator, the scanner takes the longest one that stands there, and
nothing else of the source. Where none stands, the character belongs nowhere.

* `LeftToPunctuators` : the places where a token can only be a punctuator.
* `readToken_longest` : what is read there.
-/

namespace ScriptTidy.Scanner

open Cursor

/-- The next character starts no name, escape, number, string, private name or regular
expression. -/
structure LeftToPunctuators (exprAllowed : Bool) (c : Cursor) (ch : Char) : Prop where
  peek : c.peek? = some ch
  name : startsName ch = false
  number : startsNumber c = false
  quote : ¬ (ch = '"' ∨ ch = '\'')
  regexp : ¬ (ch = '/' ∧ exprAllowed = true)
  hash : ch ≠ '#'

variable {source : Bytes} {exprAllowed : Bool} {c : Cursor} {ch : Char}

theorem readToken_eq_readPunctuator (h : LeftToPunctuators exprAllowed c ch) :
    readToken exprAllowed c = readPunctuator ch c := by
  rw [readToken_other h.peek h.name h.number, if_neg h.quote, if_neg h.regexp, if_neg h.hash]

/-- The reader looks at four characters, which are enough. -/
theorem readPunctuator_of_longest {p : Punctuator} (h : p.Longest (c.rest.map (·.char))) :
    readPunctuator ch c = .ok (bareToken (.punct p) c (c.advanceBy p.label.length),
      c.advanceBy p.label.length) := by
  have hread : Punctuator.read? ((c.rest.take 4).map (·.char)) = some p := by
    rw [List.map_take]
    exact Punctuator.read?_eq_some_iff.mpr (Punctuator.longest_take.mpr h)
  unfold readPunctuator
  rw [hread]

theorem readPunctuator_of_none (h : ∀ p : Punctuator, ¬ p.StandsAt (c.rest.map (·.char))) :
    readPunctuator ch c = .error ⟨c.position, .unexpectedCharacter ch⟩ := by
  have hread : Punctuator.read? ((c.rest.take 4).map (·.char)) = none := by
    rw [List.map_take]
    apply Punctuator.read?_eq_none_iff.mpr
    intro p hp
    exact h p (Punctuator.standsAt_take.mp hp)
  unfold readPunctuator
  rw [hread]

/-- **The longest punctuator is read.** At any place of a source where a token can only be a
punctuator: if one stands there, the token is the one with the longest text, and that text is all
that is taken off the source; if none does, the character at the start of the token is an error. -/
theorem readToken_longest (hc : (Cursor.ofSource source).Reaches c)
    (h : LeftToPunctuators exprAllowed c ch) :
    (∀ q : Punctuator, q.StandsAt (c.rest.map (·.char)) →
      ∃ (p : Punctuator) (d : Cursor) (gs : List Glyph), p.Longest (c.rest.map (·.char))
        ∧ (∀ p' : Punctuator, p'.Longest (c.rest.map (·.char)) → p' = p)
        ∧ readToken exprAllowed c = .ok (bareToken (.punct p) c d, d)
        ∧ c.Reads gs d ∧ gs.flatMap (·.bytes) = utf8 p.label
        ∧ d.offset = c.offset + p.label.length)
    ∧ ((∀ q : Punctuator, ¬ q.StandsAt (c.rest.map (·.char))) →
      readToken exprAllowed c = .error ⟨c.position, .unexpectedCharacter ch⟩) := by
  have hdec : Utf8.IsDecoding c.rest := hc.isDecoding (Utf8.isDecoding_glyphs source)
  rw [readToken_eq_readPunctuator h]
  refine ⟨fun q hq => ?_, readPunctuator_of_none⟩
  obtain ⟨p, hp⟩ := hq.exists_longest
  obtain ⟨gs, hgs, hbytes⟩ := reads_label hdec hp.label
  refine ⟨p, _, gs, hp, ?_, readPunctuator_of_longest hp, hgs, hbytes, ?_⟩
  · intro p' hp'
    exact Option.some.inj ((Punctuator.read?_of_longest hp').symm.trans
      (Punctuator.read?_of_longest hp))
  · rw [hgs.offset_eq, hbytes, Punctuator.length_utf8_label]

/-- A point in front of a digit belongs to the number. -/
theorem readToken_longest_digit :
    LeftToPunctuators false (Cursor.ofSource (utf8 "?.5")) '?'
    ∧ Punctuator.questionDot.label.toList <+: ['?', '.', '5']
    ∧ ∃ d, readToken false (Cursor.ofSource (utf8 "?.5")) =
        .ok (bareToken (.punct .question) (Cursor.ofSource (utf8 "?.5")) d, d) ∧ d.offset = 1 := by
  have hleft : LeftToPunctuators false (Cursor.ofSource (utf8 "?.5")) '?' :=
    ⟨by decide +kernel, by decide +kernel, by decide +kernel, by decide, by decide, by decide⟩
  have hchars : (Cursor.ofSource (utf8 "?.5")).rest.map (·.char) = ['?', '.', '5'] := by
    decide +kernel
  have hlongest : Punctuator.question.Longest ['?', '.', '5'] :=
    Punctuator.read?_eq_some_iff.mp rfl
  obtain ⟨p, d, gs, -, hunique, hread, -, -, hoffset⟩ :=
    (readToken_longest (Reaches.refl _) hleft).1 .question (hchars ▸ hlongest.toStandsAt)
  obtain rfl := hunique .question (hchars ▸ hlongest)
  exact ⟨hleft, ⟨['5'], rfl⟩, d, hread, hoffset⟩

end ScriptTidy.Scanner
