import ScriptTidy.Proofs.Scanner.Spells

/-!
# A text is read the same wherever it stands

Lines, columns and offsets are counted along with the reading, and only end up in the places of
tokens and errors. So two sources that end alike are read alike once the same text is left of both,
whatever was before it: the readers fail with the same fault, or return the same values and leave
the same text again.

* `Cursor.SameText` : the same text is left to read at two cursors.
* `Agree` : two readers fail with the same fault, or return related results.
* `readToken_agree` and the lemmas before it : one for each reader.
* `next_same`, `collect_agree` : steps and runs of two scanners that know the same.
-/

namespace ScriptTidy

namespace Cursor

/-- The same text is left to read, with `a` bytes before it in one source and `b` in the other. Only
the difference of the two numbers matters. -/
structure SameText (a b : Nat) (c c' : Cursor) : Prop where
  rest : c.rest = c'.rest
  offset : c.offset + b = c'.offset + a

variable {a b : Nat} {c c' d d' : Cursor}

theorem sameText_of_rest (h : c.rest = c'.rest) : c.SameText c.offset c'.offset c' :=
  ⟨h, Nat.add_comm _ _⟩

theorem SameText.peek? (h : c.SameText a b c') : c.peek? = c'.peek? := by
  unfold Cursor.peek?
  rw [h.rest]

theorem SameText.peekSecond? (h : c.SameText a b c') : c.peekSecond? = c'.peekSecond? := by
  unfold Cursor.peekSecond?
  rw [h.rest]

theorem SameText.next? {ch : Char} (h : c.SameText a b c') (hn : c.next? = some (ch, d)) :
    ∃ d', c'.next? = some (ch, d') ∧ d.SameText a b d' := by
  unfold Cursor.next? at hn ⊢
  rw [← h.rest]
  split at hn
  next => cases hn
  next g rest hr =>
    cases hn
    refine ⟨_, rfl, ?_, ?_⟩
    · rw [past_rest, past_rest]
    · have hoffset := h.offset
      rw [past_offset, past_offset]
      omega

theorem SameText.next?_eq_none (h : c.SameText a b c') (hn : c.next? = none) :
    c'.next? = none := by
  rw [Cursor.next?_eq_none] at hn ⊢
  exact h.rest.symm.trans hn

/-- Either nothing is left at both cursors, or the same character is next. -/
theorem SameText.next?_cases (h : c.SameText a b c') : (c.next? = none ∧ c'.next? = none)
    ∨ ∃ ch d d', c.next? = some (ch, d) ∧ c'.next? = some (ch, d') ∧ d.SameText a b d' := by
  cases hn : c.next? with
  | none => exact Or.inl ⟨rfl, h.next?_eq_none hn⟩
  | some r =>
    obtain ⟨d', hn', hd⟩ := h.next? hn
    exact Or.inr ⟨r.1, r.2, d', rfl, hn', hd⟩

theorem SameText.advance (h : c.SameText a b c') : c.advance.SameText a b c'.advance := by
  unfold Cursor.advance
  rcases h.next?_cases with ⟨hn, hn'⟩ | ⟨ch, d, d', hn, hn', hd⟩
  · rw [hn, hn']
    exact h
  · rw [hn, hn']
    exact hd

theorem SameText.advanceBy (n : Nat) (h : c.SameText a b c') :
    (c.advanceBy n).SameText a b (c'.advanceBy n) := by
  induction n generalizing c c' with
  | zero => exact h
  | succ n ih => exact ih h.advance

theorem SameText.skipWhile (p : Char → Bool) (h : c.SameText a b c') :
    (c.skipWhile p).SameText a b (c'.skipWhile p) := by
  fun_induction Cursor.skipWhile p c generalizing c' with
  | case1 c ch d hn hp ih =>
    obtain ⟨d', hn', hd⟩ := h.next? hn
    rw [skipWhile_eq p c', hn']
    dsimp only
    rw [if_pos hp]
    exact ih hd
  | case2 c ch d hn hp =>
    obtain ⟨d', hn', -⟩ := h.next? hn
    rw [skipWhile_eq p c', hn']
    dsimp only
    rw [if_neg hp]
    exact h
  | case3 c hn =>
    rw [skipWhile_eq p c', h.next?_eq_none hn]
    exact h

/-- The text between two places is the same. -/
theorem SameText.textTo (hc : c.SameText a b c') (hd : d.SameText a b d') :
    c.textTo d = c'.textTo d' := by
  have hlength : d.offset - c.offset = d'.offset - c'.offset := by
    have h₁ := hc.offset
    have h₂ := hd.offset
    omega
  unfold Cursor.textTo
  rw [hc.rest, hlength]

end Cursor

namespace Scanner

open Cursor

/-- Both fail with related errors, or both return related results. -/
inductive Agree {ε α : Type} (E : ε → ε → Prop) (R : α → α → Prop) :
    Except ε α → Except ε α → Prop
  | ok {x y : α} (h : R x y) : Agree E R (.ok x) (.ok y)
  | error {e f : ε} (h : E e f) : Agree E R (.error e) (.error f)

theorem Agree.cases_eq {ε α : Type} {E : ε → ε → Prop} {R : α → α → Prop} {x y : Except ε α}
    (h : Agree E R x y) : (∃ u v, x = .ok u ∧ y = .ok v ∧ R u v)
      ∨ ∃ e f, x = .error e ∧ y = .error f ∧ E e f := by
  cases h with
  | ok h => exact Or.inl ⟨_, _, rfl, rfl, h⟩
  | error h => exact Or.inr ⟨_, _, rfl, rfl, h⟩

theorem Agree.map {ε α β : Type} {E : ε → ε → Prop} {R : α → α → Prop} {S : β → β → Prop}
    {x y : Except ε α} {f g : α → β} (h : Agree E R x y) (hfg : ∀ u v, R u v → S (f u) (g v)) :
    Agree E S (x.map f) (y.map g) := by
  cases h with
  | ok h => exact .ok (hfg _ _ h)
  | error h => exact .error h

theorem Agree.isOk_eq {ε α : Type} {E : ε → ε → Prop} {R : α → α → Prop} {x y : Except ε α}
    (h : Agree E R x y) : x.isOk = y.isOk := by
  cases h with
  | ok => rfl
  | error => rfl

/-- The same value, and the same text left behind it. -/
def SameEnd {α : Type} (a b : Nat) (x y : α × Cursor) : Prop :=
  x.1 = y.1 ∧ x.2.SameText a b y.2

/-- The same fault, wherever it is reported. -/
def SameFault (e f : LexError) : Prop := e.fault = f.fault

variable {a b : Nat} {c c' : Cursor}

/-! ## Escapes -/

theorem readHex_agree {count value : Nat} (h : c.SameText a b c') :
    Agree Eq (SameEnd a b) (readHex count value c) (readHex count value c') := by
  induction count generalizing value c c' with
  | zero => exact .ok ⟨rfl, h⟩
  | succ count ih =>
    unfold readHex
    rcases h.next?_cases with ⟨hn, hn'⟩ | ⟨ch, d, d', hn, hn', hd⟩
    · rw [hn, hn']
      exact .error rfl
    · rw [hn, hn']
      dsimp only
      cases hexValue? ch with
      | none => exact .error rfl
      | some x => exact ih hd

theorem readBraced_agree {value : Option Nat} (h : c.SameText a b c') :
    Agree Eq (SameEnd a b) (readBraced value c) (readBraced value c') := by
  induction hlength : c.rest.length using Nat.strong_induction_on generalizing value c c' with
  | h n ih =>
    rw [readBraced_eq value c, readBraced_eq value c']
    rcases h.next?_cases with ⟨hn, hn'⟩ | ⟨ch, d, d', hn, hn', hd⟩
    · rw [hn, hn']
      exact .error rfl
    · rw [hn, hn']
      dsimp only
      split
      · cases value with
        | none => exact .error rfl
        | some v => exact .ok ⟨rfl, hd⟩
      · cases hexValue? ch with
        | none => exact .error rfl
        | some x =>
          dsimp only
          split
          · exact .error rfl
          · exact ih _ (hlength ▸ next?_length hn) hd rfl

theorem readCodePoint_agree (h : c.SameText a b c') :
    Agree Eq (SameEnd a b) (readCodePoint c) (readCodePoint c') := by
  unfold readCodePoint
  rw [← h.peek?]
  split
  · exact readBraced_agree h.advance
  · exact readHex_agree h

theorem readLowHalf?_same (hi : Nat) (h : c.SameText a b c') :
    (readLowHalf? hi c = none ∧ readLowHalf? hi c' = none)
      ∨ ∃ m d d', readLowHalf? hi c = some (m, d) ∧ readLowHalf? hi c' = some (m, d')
        ∧ d.SameText a b d' := by
  unfold readLowHalf?
  rw [← h.peek?, ← h.peekSecond?]
  split
  · rcases (readCodePoint_agree (h.advanceBy 2)).cases_eq with
      ⟨⟨lo, d⟩, ⟨_, d'⟩, hu, hv, rfl, hd⟩ | ⟨e, f, he, hf, -⟩
    · rw [hu, hv]
      dsimp only
      split
      · exact Or.inr ⟨_, d, d', rfl, rfl, hd⟩
      · exact Or.inl ⟨rfl, rfl⟩
    · rw [he, hf]
      exact Or.inl ⟨rfl, rfl⟩
  · exact Or.inl ⟨rfl, rfl⟩

theorem readUnicodeEscape_agree (h : c.SameText a b c') :
    Agree Eq (SameEnd a b) (readUnicodeEscape c) (readUnicodeEscape c') := by
  unfold readUnicodeEscape
  rcases (readCodePoint_agree h).cases_eq with
    ⟨⟨n, d⟩, ⟨_, d'⟩, hu, hv, rfl, hd⟩ | ⟨e, _, he, hf, rfl⟩
  · rw [hu, hv]
    dsimp only
    rcases readLowHalf?_same n hd with ⟨hnone, hnone'⟩ | ⟨m, e, e', hsome, hsome', he⟩
    · rw [hnone, hnone']
      exact .ok ⟨rfl, hd⟩
    · rw [hsome, hsome']
      exact .ok ⟨rfl, he⟩
  · rw [he, hf]
    exact .error rfl

theorem readOctal_same (count value : Nat) (h : c.SameText a b c') :
    SameEnd a b (readOctal count value c) (readOctal count value c') := by
  induction count generalizing value c c' with
  | zero => exact ⟨rfl, h⟩
  | succ count ih =>
    unfold readOctal
    rcases h.next?_cases with ⟨hn, hn'⟩ | ⟨ch, d, d', hn, hn', hd⟩
    · rw [hn, hn']
      exact ⟨rfl, h⟩
    · rw [hn, hn']
      dsimp only
      split
      · exact ih _ hd
      · exact ⟨rfl, h⟩

theorem readEscape_agree (h : c.SameText a b c') :
    Agree Eq (SameEnd a b) (readEscape c) (readEscape c') := by
  unfold readEscape
  rcases h.next?_cases with ⟨hn, hn'⟩ | ⟨ch, d, d', hn, hn', hd⟩
  · rw [hn, hn']
    exact .error rfl
  · rw [hn, hn']
    dsimp only
    cases controlEscape? ch with
    | some x => exact .ok ⟨rfl, hd⟩
    | none =>
      dsimp only
      split
      · rcases (readHex_agree hd).cases_eq with
          ⟨⟨n, e⟩, ⟨_, e'⟩, hu, hv, rfl, he⟩ | ⟨f, _, hf, hf', rfl⟩
        · rw [hu, hv]
          exact .ok ⟨rfl, he⟩
        · rw [hf, hf']
          exact .error rfl
      · split
        · exact readUnicodeEscape_agree hd
        · split
          · rw [← hd.peek?]
            refine .ok ⟨rfl, ?_⟩
            dsimp only
            split
            · exact hd.advance
            · exact hd
          · split
            · exact .ok ⟨rfl, hd⟩
            · split
              · have hoctal := readOctal_same 2 (ch.toNat - 0x30) hd
                exact .ok ⟨congrArg Utf8.encode hoctal.1, hoctal.2⟩
              · exact .ok ⟨rfl, hd⟩

/-! ## Names and strings -/

theorem Agree.withText (text : Bytes) {x y : Except LexError (Bytes × Cursor)}
    (h : Agree SameFault (SameEnd a b) x y) :
    Agree SameFault (SameEnd a b) (withText text x) (withText text y) := by
  cases h with
  | ok h => exact .ok ⟨congrArg (text ++ ·) h.1, h.2⟩
  | error h => exact .error h

theorem readName_agree {first : Bool} (h : c.SameText a b c') :
    Agree SameFault (SameEnd a b) (readName first c) (readName first c') := by
  -- an escape takes several characters at once, so the induction is on what is left
  induction hlength : c.rest.length using Nat.strong_induction_on generalizing first c c' with
  | h n ih =>
    rw [readName_eq first c, readName_eq first c']
    rcases h.next?_cases with ⟨hn, hn'⟩ | ⟨ch, d, d', hn, hn', hd⟩
    · rw [hn, hn']
      exact .ok ⟨rfl, h⟩
    · have hlt := next?_length hn
      rw [hn, hn']
      dsimp only
      rw [← hd.peek?]
      split
      · split
        · rcases (readCodePoint_agree hd.advance).cases_eq with
            ⟨⟨m, e⟩, ⟨_, e'⟩, hu, hv, rfl, he⟩ | ⟨f, _, hf, hf', rfl⟩
          · have hle := readCodePoint_length_le hu
            have hle' := advance_length_le d
            replace he : e.SameText a b e' := he
            rw [hu, hv]
            dsimp only
            split
            · exact (ih _ (by omega) he rfl).withText _
            · exact .error rfl
          · rw [hf, hf']
            exact .error rfl
        · exact .error rfl
      · split
        · exact (ih _ (by omega) hd rfl).withText _
        · exact .ok ⟨rfl, h⟩

theorem readString_agree {quote : Char} (start start' : Position) (h : c.SameText a b c') :
    Agree SameFault (SameEnd a b) (readString quote start c) (readString quote start' c') := by
  induction hlength : c.rest.length using Nat.strong_induction_on generalizing c c' with
  | h n ih =>
    rw [readString_eq quote start c, readString_eq quote start' c']
    rcases h.next?_cases with ⟨hn, hn'⟩ | ⟨ch, d, d', hn, hn', hd⟩
    · rw [hn, hn']
      exact .error rfl
    · have hlt := next?_length hn
      rw [hn, hn']
      dsimp only
      split
      · exact .ok ⟨rfl, hd⟩
      · split
        · exact .error rfl
        · split
          · rcases (readEscape_agree hd).cases_eq with
              ⟨⟨text, e⟩, ⟨_, e'⟩, hu, hv, rfl, he⟩ | ⟨f, _, hf, hf', rfl⟩
            · have hle := readEscape_length_le hu
              replace he : e.SameText a b e' := he
              rw [hu, hv]
              exact (ih _ (by omega) he rfl).withText _
            · rw [hf, hf']
              exact .error rfl
          · exact (ih _ (by omega) hd rfl).withText _

/-! ## Numbers, regular expressions and template chunks -/

/-- The same text is left behind a token whose text is kept as it is. -/
def SameStop (a b : Nat) : Except LexError Cursor → Except LexError Cursor → Prop :=
  Agree SameFault (Cursor.SameText a b)

theorem skipDigits_same (base : Nat) (h : c.SameText a b c') :
    (skipDigits base c).SameText a b (skipDigits base c') :=
  h.skipWhile _

theorem digitAhead_same (base : Nat) (h : c.SameText a b c') :
    digitAhead base c = digitAhead base c' := by
  unfold digitAhead
  rw [h.peek?]

theorem skipOneOf_same (cs : List Char) (h : c.SameText a b c') :
    (skipOneOf cs c).SameText a b (skipOneOf cs c') := by
  unfold skipOneOf
  rw [← h.peek?]
  split
  · exact h.advance
  · exact h

theorem readRadixNumber_agree {base : Nat} (h : c.SameText a b c') :
    SameStop a b (readRadixNumber base c) (readRadixNumber base c') := by
  unfold readRadixNumber
  dsimp only
  rw [← digitAhead_same base (h.advanceBy 2)]
  split
  · exact .ok (skipOneOf_same _ (skipDigits_same base (h.advanceBy 2)))
  · exact .error rfl

theorem readExponent_agree (start start' : Position) (h : c.SameText a b c') :
    SameStop a b (readExponent start c) (readExponent start' c') := by
  have hsign := skipOneOf_same ['+', '-'] h.advance
  unfold readExponent
  dsimp only
  rw [← h.peek?, ← digitAhead_same 10 hsign]
  split
  · split
    · exact .ok (skipDigits_same 10 hsign)
    · exact .error rfl
  · exact .ok h

theorem readDecimalNumber_agree (h : c.SameText a b c') :
    SameStop a b (readDecimalNumber c) (readDecimalNumber c') := by
  have hd := skipDigits_same 10 h
  unfold readDecimalNumber
  dsimp only
  rw [← hd.peek?]
  split
  · exact .ok hd.advance
  · split
    · exact readExponent_agree _ _ (skipDigits_same 10 hd.advance)
    · exact readExponent_agree _ _ hd

theorem readDigits_agree (h : c.SameText a b c') :
    SameStop a b (readDigits c) (readDigits c') := by
  unfold readDigits
  rw [← radixOf?_congr h.peek? h.peekSecond?]
  split
  · exact readRadixNumber_agree h
  · exact readDecimalNumber_agree h

theorem readNumber_eq (c : Cursor) : readNumber c =
    match readDigits c with
    | .error e => .error e
    | .ok d =>
      if d.peek?.any fun ch => isIdentifierStart ch.toNat then
        .error ⟨d.position, .identifierAfterNumber⟩
      else .ok d := rfl

theorem readNumber_agree (h : c.SameText a b c') :
    SameStop a b (readNumber c) (readNumber c') := by
  rw [readNumber_eq c, readNumber_eq c']
  rcases (readDigits_agree h).cases_eq with ⟨d, d', hd, hd', hsame⟩ | ⟨e, f, he, hf, hfault⟩
  · rw [hd, hd']
    dsimp only
    rw [← hsame.peek?]
    split
    · exact .error rfl
    · exact .ok hsame
  · rw [he, hf]
    exact .error hfault

theorem readRegexpBody_agree (start start' : Position) (escaped inClass : Bool)
    (h : c.SameText a b c') : SameStop a b (readRegexpBody start escaped inClass c)
      (readRegexpBody start' escaped inClass c') := by
  induction hlength : c.rest.length using Nat.strong_induction_on
    generalizing escaped inClass c c' with
  | h n ih =>
    rw [readRegexpBody_eq start _ _ c, readRegexpBody_eq start' _ _ c']
    rcases h.next?_cases with ⟨hn, hn'⟩ | ⟨ch, d, d', hn, hn', hd⟩
    · rw [hn, hn']
      exact .error rfl
    · have hlt := hlength ▸ next?_length hn
      rw [hn, hn']
      dsimp only
      split
      · exact .error rfl
      · split
        · exact ih _ hlt _ _ hd rfl
        · split
          · exact .ok hd
          · exact ih _ hlt _ _ hd rfl

theorem readRegexp_agree (h : c.SameText a b c') :
    SameStop a b (readRegexp c) (readRegexp c') := by
  unfold readRegexp
  rcases (readRegexpBody_agree c.position c'.position false false
    h.advance).cases_eq with ⟨d, d', hd, hd', hsame⟩ | ⟨e, f, he, hf, hfault⟩
  · rw [hd, hd']
    exact .ok (hsame.skipWhile _)
  · rw [he, hf]
    exact .error hfault

theorem readChunk_agree (start start' : Position) (h : c.SameText a b c') :
    SameStop a b (readChunk start c) (readChunk start' c') := by
  induction hlength : c.rest.length using Nat.strong_induction_on generalizing c c' with
  | h n ih =>
    rw [readChunk_eq start c, readChunk_eq start' c']
    rcases h.next?_cases with ⟨hn, hn'⟩ | ⟨ch, d, d', hn, hn', hd⟩
    · rw [hn, hn']
      exact .error rfl
    · have hlt := next?_length hn
      have hle := advance_length_le d
      rw [hn, hn']
      dsimp only
      rw [← chunkEnds_congr h.peek? h.peekSecond?]
      split
      · exact .ok h
      · split
        · exact ih _ (by omega) hd.advance rfl
        · exact ih _ (by omega) hd rfl

/-! ## Comments and white space -/

theorem findCommentEnd_same (newline : Bool) (h : c.SameText a b c') :
    (findCommentEnd newline c = none ∧ findCommentEnd newline c' = none)
      ∨ ∃ d d' seen, findCommentEnd newline c = some (d, seen)
        ∧ findCommentEnd newline c' = some (d', seen) ∧ d.SameText a b d' := by
  induction hlength : c.rest.length using Nat.strong_induction_on generalizing newline c c' with
  | h n ih =>
    rw [findCommentEnd_eq newline c, findCommentEnd_eq newline c']
    rcases h.next?_cases with ⟨hn, hn'⟩ | ⟨ch, d, d', hn, hn', hd⟩
    · rw [hn, hn']
      exact Or.inl ⟨rfl, rfl⟩
    · rw [hn, hn']
      dsimp only
      rw [← hd.peek?]
      split
      · exact Or.inr ⟨c, c', newline, rfl, rfl, h⟩
      · exact ih _ (hlength ▸ next?_length hn) _ hd rfl

theorem readLineComment_same (kind : Kind) (h : c.SameText a b c') :
    (readLineComment kind c).1.content = (readLineComment kind c').1.content
      ∧ (readLineComment kind c).2.SameText a b (readLineComment kind c').2 := by
  have hd := h.skipWhile fun ch => !isLineTerminator ch
  exact ⟨congrArg (Prod.mk kind) ((h.advanceBy 2).textTo hd), hd⟩

/-- The same comments, and the same text left behind them. -/
structure SameTrivia (a b : Nat) (t t' : Trivia) : Prop where
  comments : t.comments.map Token.content = t'.comments.map Token.content
  newline : t.newline = t'.newline
  outcome : SameStop a b t.outcome t'.outcome

theorem SameTrivia.withComment {t t' : Trivia} {comment comment' : Token}
    (h : SameTrivia a b t t') (hcomment : comment.content = comment'.content) :
    SameTrivia a b (t.withComment comment) (t'.withComment comment') where
  comments := congrArg₂ List.cons hcomment h.comments
  newline := h.newline
  outcome := h.outcome

theorem readTrivia_same {newline : Bool} (h : c.SameText a b c') :
    SameTrivia a b (readTrivia newline c) (readTrivia newline c') := by
  induction hlength : c.rest.length using Nat.strong_induction_on generalizing newline c c' with
  | h n ih =>
    -- what is returned where the trivia end
    have hhere : SameTrivia a b ⟨[], newline, .ok c⟩ ⟨[], newline, .ok c'⟩ := ⟨rfl, rfl, .ok h⟩
    rw [readTrivia_eq newline c, readTrivia_eq newline c']
    rcases h.next?_cases with ⟨hn, hn'⟩ | ⟨ch, d, d', hn, hn', hd⟩
    · rw [hn, hn']
      exact hhere
    · have hlt := hlength ▸ next?_length hn
      rw [hn, hn']
      dsimp only
      rw [← hd.peek?]
      split
      · exact ih _ hlt hd rfl
      · split
        · exact ih _ hlt hd rfl
        · split
          next hslash =>
            split
            · -- a block comment
              rcases findCommentEnd_same newline (h.advanceBy 2) with
                ⟨hnone, hnone'⟩ | ⟨close, close', seen, hclose, hclose', hsame⟩
              · rw [hnone, hnone']
                exact ⟨rfl, rfl, .error rfl⟩
              · have hle := findCommentEnd_length_le hclose
                have hle' := advanceBy_length_le 2 close
                have hlt' := advanceBy_two_length_lt hn
                rw [hclose, hclose']
                refine (ih _ (by omega) (hsame.advanceBy 2) rfl).withComment ?_
                exact congrArg (Prod.mk Kind.blockComment) ((h.advanceBy 2).textTo hsame)
            · split
              · -- a line comment
                obtain ⟨hcomment, hrest⟩ := readLineComment_same .lineComment h
                have hlt' : (readLineComment .lineComment c).2.rest.length < c.rest.length :=
                  readLineComment_length_lt hn (by rw [hslash]; decide)
                exact (ih _ (by omega) hrest rfl).withComment hcomment
              · exact hhere
          next => exact hhere

/-! ## Tokens -/

/-- A token with the same contents, and the same text left behind it. -/
def SameRead (a b : Nat) (x y : Token × Cursor) : Prop :=
  x.1.content = y.1.content ∧ x.2.SameText a b y.2

theorem rawTokenTo_agree (kind : Kind) {x y : Except LexError Cursor} (h : c.SameText a b c')
    (hstop : SameStop a b x y) :
    Agree SameFault (SameRead a b) (rawTokenTo kind c x) (rawTokenTo kind c' y) := by
  cases hstop with
  | ok hd => exact .ok ⟨congrArg (Prod.mk kind) (h.textTo hd), hd⟩
  | error he => exact .error he

theorem readWord_agree (h : c.SameText a b c') :
    Agree SameFault (SameRead a b) (readWord c) (readWord c') := by
  unfold readWord
  rcases (readName_agree h).cases_eq with
    ⟨⟨word, d⟩, ⟨_, d'⟩, hu, hv, rfl, hd⟩ | ⟨e, f, he, hf, hfault⟩
  · rw [hu, hv]
    exact .ok ⟨rfl, hd⟩
  · rw [he, hf]
    exact .error hfault

theorem readQuoted_agree (quote : Char) (h : c.SameText a b c') :
    Agree SameFault (SameRead a b) (readQuoted quote c) (readQuoted quote c') := by
  unfold readQuoted
  rcases (readString_agree c.position c'.position h.advance).cases_eq with
    ⟨⟨value, d⟩, ⟨_, d'⟩, hu, hv, rfl, hd⟩ | ⟨e, f, he, hf, hfault⟩
  · rw [hu, hv]
    exact .ok ⟨rfl, hd⟩
  · rw [he, hf]
    exact .error hfault

theorem readPrivateName_agree (h : c.SameText a b c') :
    Agree SameFault (SameRead a b) (readPrivateName c) (readPrivateName c') := by
  unfold readPrivateName
  dsimp only
  rw [← h.advance.peek?]
  split
  · rcases (readName_agree h.advance).cases_eq with
      ⟨⟨word, d⟩, ⟨_, d'⟩, hu, hv, rfl, hd⟩ | ⟨e, f, he, hf, hfault⟩
    · rw [hu, hv]
      exact .ok ⟨rfl, hd⟩
    · rw [he, hf]
      exact .error hfault
  · exact .error rfl

theorem readPunctuator_agree (ch : Char) (h : c.SameText a b c') :
    Agree SameFault (SameRead a b) (readPunctuator ch c) (readPunctuator ch c') := by
  unfold readPunctuator
  rw [← h.rest]
  split
  · exact .ok ⟨rfl, h.advanceBy _⟩
  · exact .error rfl

theorem startsNumber_same (h : c.SameText a b c') : startsNumber c = startsNumber c' := by
  unfold startsNumber
  rw [digitAhead_same 10 h, h.peek?, h.peekSecond?]

/-- **A token is read the same wherever it stands.** -/
theorem readToken_agree (exprAllowed : Bool) (h : c.SameText a b c') :
    Agree SameFault (SameRead a b) (readToken exprAllowed c) (readToken exprAllowed c') := by
  unfold readToken
  rw [← h.peek?, ← startsNumber_same h]
  split
  · exact .ok ⟨rfl, h⟩
  · split
    · exact readWord_agree h
    · split
      · exact rawTokenTo_agree .num h (readNumber_agree h)
      · split
        · exact readQuoted_agree _ h
        · split
          · exact rawTokenTo_agree .regexp h (readRegexp_agree h)
          · split
            · exact readPrivateName_agree h
            · exact readPunctuator_agree _ h

theorem readChunkDelimiter_same (h : c.SameText a b c') :
    SameRead a b (readChunkDelimiter c) (readChunkDelimiter c') := by
  unfold readChunkDelimiter
  rw [← h.peek?]
  by_cases hdollar : c.peek? = some '$'
  · rw [if_pos hdollar, if_pos hdollar]
    exact ⟨rfl, h.advanceBy 2⟩
  · rw [if_neg hdollar, if_neg hdollar]
    exact ⟨rfl, h.advance⟩

theorem readTemplateToken_agree (prev : Kind) (h : c.SameText a b c') :
    Agree SameFault (SameRead a b) (readTemplateToken prev c) (readTemplateToken prev c') := by
  unfold readTemplateToken
  rw [← chunkEnds_congr h.peek? h.peekSecond?]
  split
  · exact .ok (readChunkDelimiter_same h)
  · exact rawTokenTo_agree .template h (readChunk_agree _ _ h)

/-! ## Runs -/

/-- Two scanners that have read something, in the same situation and with the same text left. -/
structure Alongside (a b : Nat) (s s' : Scanner) : Prop where
  cursor : s.cursor.SameText a b s'.cursor
  situation : s.situation = s'.situation
  started : s.atStart = false ∧ s'.atStart = false
  running : s.failure = none ∧ s'.failure = none

/-- Two steps with the same contents, behind which the scanners know the same. -/
structure SameStep (a b : Nat) (x y : Step) : Prop where
  comments : x.comments.map Token.content = y.comments.map Token.content
  outcome : Agree SameFault (fun t u => t.content = u.content) x.outcome y.outcome
  scanner : ∀ t, x.outcome = .ok t → Alongside a b x.scanner y.scanner
    ∧ x.scanner.prev = y.scanner.prev

variable {s s' : Scanner}

/-- What the kinds of the last tokens lead to is all that can tell two readings of the same token
apart. -/
theorem finish_same {newline : Bool} {comments comments' : List Token}
    {read read' : Except LexError (Token × Cursor)} (h : Alongside a b s s')
    (hcomments : comments.map Token.content = comments'.map Token.content)
    (hread : Agree SameFault (SameRead a b) read read')
    (hafter : ∀ t d, read = .ok (t, d) →
      ({ s.situation with newlineBefore := newline } : Situation).after t.kind s.prev t.value =
        ({ s.situation with newlineBefore := newline } : Situation).after t.kind s'.prev t.value) :
    SameStep a b (s.finish newline comments read) (s'.finish newline comments' read') := by
  cases hread with
  | @ok x y hxy =>
    obtain ⟨t, d⟩ := x
    obtain ⟨u, e⟩ := y
    obtain ⟨hcontent, hd⟩ := hxy
    obtain ⟨hkind, hvalue⟩ := Prod.mk.inj hcontent
    rw [finish_ok, finish_ok]
    -- the two situations are the same, and so is the token; the tokens before it need not be
    refine ⟨hcomments, .ok hcontent, fun _ _ => ⟨⟨hd, ?_, ⟨rfl, rfl⟩, h.running⟩, hkind⟩⟩
    show ({ s.situation with newlineBefore := newline } : Situation).after t.kind s.prev t.value =
      ({ s'.situation with newlineBefore := newline } : Situation).after u.kind s'.prev u.value
    rw [hafter t d rfl, h.situation, hkind, hvalue]
  | error hfault => exact ⟨hcomments, .error hfault, fun t ht => by cases ht⟩

/-- A step of ordinary code, behind tokens that need not be of the same kind. -/
theorem next_ordinary_same (h : Alongside a b s s') (hs : s.situation.innermost ≠ .template)
    (hafter : ∀ c t d, (readTrivia false s.cursor).outcome = .ok c →
      readToken s.situation.exprAllowed c = .ok (t, d) →
      ({ s.situation with newlineBefore := (readTrivia false s.cursor).newline } : Situation).after
          t.kind s.prev t.value =
        ({ s.situation with newlineBefore := (readTrivia false s.cursor).newline } :
          Situation).after t.kind s'.prev t.value) :
    SameStep a b s.next s'.next := by
  have htrivia : SameTrivia a b (readTrivia false s.cursor) (readTrivia false s'.cursor) :=
    readTrivia_same h.cursor
  rw [next_of_ordinary h.running.1 h.started.1 hs,
    next_of_ordinary h.running.2 h.started.2 (h.situation ▸ hs), ← htrivia.newline]
  rcases htrivia.outcome.cases_eq with ⟨c, c', hc, hc', hsame⟩ | ⟨e, f, he, hf, hfault⟩
  · rw [hc, hc']
    refine finish_same h htrivia.comments ?_ fun t d => hafter c t d hc
    rw [← h.situation]
    exact readToken_agree _ hsame
  · rw [he, hf]
    exact finish_same h htrivia.comments (.error hfault) fun t d ht => by cases ht

/-- **Two scanners that know the same take the same step.** -/
theorem next_same (h : Alongside a b s s') (hprev : s.prev = s'.prev) :
    SameStep a b s.next s'.next := by
  by_cases hs : s.situation.innermost = .template
  · -- here the last kind also decides between a chunk and its delimiter
    rw [next_of_template h.running.1 hs, next_of_template h.running.2 (h.situation ▸ hs), ← hprev]
    exact finish_same h rfl (readTemplateToken_agree _ h.cursor) fun t d _ => by rw [← hprev]
  · exact next_ordinary_same h hs fun c t d _ _ => by rw [← hprev]

/-- The same kinds and values, comments included. -/
def SameContents (ts us : List Token) : Prop := ts.map Token.content = us.map Token.content

/-- What follows the same step is put behind the same tokens. -/
theorem collect_succ_agree {fuel : Nat} (hstep : SameStep a b s.next s'.next)
    (hrest : ∀ t, s.next.outcome = .ok t → Agree SameFault SameContents
      (collect fuel s.next.scanner) (collect fuel s'.next.scanner)) :
    Agree SameFault SameContents (collect (fuel + 1) s) (collect (fuel + 1) s') := by
  unfold collect
  dsimp only
  have hcomments := hstep.comments
  -- both steps give a token of one kind, or both fail
  rcases hstep.outcome.cases_eq with ⟨t, u, ht, hu, hcontent⟩ | ⟨e, f, he, hf, hfault⟩
  · have hkind : t.kind = u.kind := congrArg Prod.fst hcontent
    rw [ht, hu]
    dsimp only
    rw [← hkind]
    split
    · refine .ok ?_
      unfold SameContents
      rw [List.map_append, List.map_append, List.map_singleton, List.map_singleton, hcomments,
        hcontent]
    · rcases (hrest t ht).cases_eq with ⟨ts, us, hts, hus, hsame⟩ | ⟨e, f, he, hf, hfault⟩
      · rw [hts, hus]
        refine .ok ?_
        unfold SameContents at hsame ⊢
        rw [List.map_append, List.map_append, List.map_cons, List.map_cons, hcomments, hcontent,
          hsame]
      · rw [he, hf]
        exact .error hfault
  · rw [he, hf]
    exact .error hfault

/-- **Two scanners that know the same read the same tokens**, or fail with the same fault. -/
theorem collect_agree (fuel : Nat) (h : Alongside a b s s') (hprev : s.prev = s'.prev) :
    Agree SameFault SameContents (collect fuel s) (collect fuel s') := by
  induction fuel generalizing s s' with
  | zero => exact .ok rfl
  | succ fuel ih =>
    -- a step leaves two scanners that know the same again
    have hstep := next_same h hprev
    refine collect_succ_agree hstep fun t ht => ?_
    obtain ⟨hnext, hkind⟩ := hstep.scanner t ht
    exact ih hnext hkind

end Scanner

end ScriptTidy
