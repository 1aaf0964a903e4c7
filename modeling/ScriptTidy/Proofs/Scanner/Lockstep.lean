import ScriptTidy.Proofs.Scanner.Equations
import ScriptTidy.Proofs.Scanner.Reach
import ScriptTidy.Proofs.Text.Characters

/-!
# Reading the same text in front of something else

The raw text of a number, a regular expression or a template chunk is written back as it is, in
front of a text that may differ from what followed it in the source. The readers look at the
character behind their token, so it takes a proof that they stop at the same place: two cursors
are read in lockstep (`Beside`), and what follows in the second text must not extend the token.

* `readNumber_lockstep` : nothing that continues a name and no point may follow.
* `readRegexp_lockstep` : nothing that continues a name may follow.
* `readChunk_lockstep` : the same delimiter has to follow.
-/

namespace ScriptTidy

namespace Cursor

/-- The second cursor stands in front of the same glyphs as the first, where the one text goes
on with `t` and the other with `t'`. -/
def Beside (t t' : List Glyph) (c c' : Cursor) : Prop :=
  ∃ gs, c.rest = gs ++ t ∧ c'.rest = gs ++ t'

/-- Reading characters of a class stops in front of the glyphs. -/
def Stops (p : Char → Bool) (gs : List Glyph) : Prop := ∀ g ∈ gs.head?, p g.char = false

variable {t t' : List Glyph} {c c' d : Cursor}

theorem peek?_eq_head? (c : Cursor) : c.peek? = c.rest.head?.map (·.char) := rfl

theorem rest_of_peek? {ch : Char} (h : c.peek? = some ch) :
    ∃ g rest, c.rest = g :: rest ∧ g.char = ch := by
  cases hr : c.rest with
  | nil => simp [peek?_eq_head?, hr] at h
  | cons g rest => exact ⟨g, rest, rfl, by simpa [peek?_eq_head?, hr] using h⟩

theorem Beside.length_le (h : Beside t t' c c') : t.length ≤ c.rest.length := by
  obtain ⟨gs, hc, _⟩ := h
  rw [hc, List.length_append]
  omega

theorem Beside.rest_eq (h : Beside t t' c c') (hc : c.rest = t) : c'.rest = t' := by
  obtain ⟨gs, hgs, hgs'⟩ := h
  have : gs = [] := by
    have hlen := congrArg List.length (hgs.symm.trans hc)
    rw [List.length_append] at hlen
    exact List.eq_nil_of_length_eq_zero (by omega)
  rw [hgs', this, List.nil_append]

theorem rest_eq_of_reaches (h : c.Reaches d) (hlen : c.rest.length ≤ d.rest.length) :
    d.rest = c.rest := h.suffix.eq_of_length_le hlen

/-- Within the common text both cursors read the same glyph. -/
theorem Beside.advance (h : Beside t t' c c') (hlt : t.length < c.rest.length) :
    c.peek? = c'.peek? ∧ Beside t t' c.advance c'.advance := by
  obtain ⟨gs, hc, hc'⟩ := h
  cases gs with
  | nil =>
    rw [hc] at hlt
    exact absurd hlt (Nat.lt_irrefl _)
  | cons g gs =>
    refine ⟨?_, gs, ?_, ?_⟩
    · rw [peek?_eq_head?, peek?_eq_head?, hc, hc']
      rfl
    · rw [advance_rest, hc]
      rfl
    · rw [advance_rest, hc']
      rfl

theorem peekSecond?_eq (c : Cursor) : c.peekSecond? = c.advance.peek? := by
  rw [peek?_eq_head?, advance_rest]
  rfl

theorem advance_length_lt (h : c.peek? ≠ none) : c.advance.rest.length < c.rest.length := by
  rw [peek?_eq_head?] at h
  rw [advance_rest]
  cases hr : c.rest with
  | nil => simp [hr] at h
  | cons g gs => simp

/-- What the first cursor does not see, the second does not see either. -/
theorem Beside.any_eq_false {p : Char → Bool} (h : Beside t t' c c') (hstop : Stops p t')
    (hp : c.peek?.any p = false) : c'.peek?.any p = false := by
  by_cases hlt : t.length < c.rest.length
  · rw [← (h.advance hlt).1]
    exact hp
  · obtain ⟨gs, hc, hc'⟩ := h
    have hnil : gs = [] := by
      rw [hc, List.length_append] at hlt
      exact List.eq_nil_of_length_eq_zero (by omega)
    rw [peek?_eq_head?, hc', hnil, List.nil_append]
    cases hhead : t'.head? with
    | none => rfl
    | some g => exact hstop g (by rw [hhead]; rfl)

theorem Beside.peek?_ne {ch : Char} (h : Beside t t' c c') (hstop : Stops (· == ch) t')
    (hne : c.peek? ≠ some ch) : c'.peek? ≠ some ch := by
  have hany : c.peek?.any (· == ch) = false := by
    cases hp : c.peek? with
    | none => rfl
    | some x => simpa [hp] using hne
  intro hp
  have := h.any_eq_false hstop hany
  simp [hp] at this

theorem skipWhile_rest (p : Char → Bool) (c : Cursor) :
    (c.skipWhile p).rest = c.rest.dropWhile fun g => p g.char := by
  fun_induction skipWhile p c with
  | case1 c ch d h hp ih =>
    obtain ⟨g, hg, rfl⟩ := reads_of_next? h
    rw [ih, hg.rest_eq, List.singleton_append, List.dropWhile_cons_of_pos (by exact hp)]
  | case2 c ch d h hp =>
    obtain ⟨g, hg, rfl⟩ := reads_of_next? h
    rw [hg.rest_eq, List.singleton_append, List.dropWhile_cons_of_neg (by exact hp)]
  | case3 c h => rw [next?_eq_none.mp h, List.dropWhile_nil]

theorem stops_cons {p : Char → Bool} {g : Glyph} {gs : List Glyph} (h : p g.char = false) :
    Stops p (g :: gs) := by
  intro k hk
  obtain rfl := Option.some.inj hk
  exact h

theorem Stops.dropWhile_eq {p : Char → Bool} (h : Stops p t) :
    (t.dropWhile fun g => p g.char) = t := by
  cases t with
  | nil => rfl
  | cons g gs =>
    refine List.dropWhile_cons_of_neg ?_
    have := h g rfl
    simp [this]

theorem Stops.mono {p q : Char → Bool} (h : Stops q t)
    (hpq : ∀ ch, p ch = true → q ch = true) : Stops p t := by
  intro g hg
  cases hp : p g.char with
  | false => rfl
  | true => rw [← h g hg, hpq _ hp]

theorem Beside.skipWhile {p : Char → Bool} (h : Beside t t' c c') (hstop : Stops p t')
    (hlen : t.length ≤ (c.skipWhile p).rest.length) :
    Beside t t' (c.skipWhile p) (c'.skipWhile p) := by
  obtain ⟨gs, hc, hc'⟩ := h
  rw [skipWhile_rest, hc, List.dropWhile_append] at hlen
  unfold Beside
  rw [skipWhile_rest, skipWhile_rest, hc, hc', List.dropWhile_append, List.dropWhile_append]
  split at hlen
  · next hall =>
    -- the skipped characters are all of the common text
    rw [if_pos hall, if_pos hall, hstop.dropWhile_eq]
    refine ⟨[], ?_, rfl⟩
    exact (List.dropWhile_suffix _).eq_of_length_le hlen
  · next hall =>
    rw [if_neg hall, if_neg hall]
    exact ⟨_, rfl, rfl⟩

end Cursor

namespace Scanner

open Cursor

variable {t t' : List Glyph} {c c' d : Cursor}

/-- Whether a character continues a name, as a class of characters. -/
def partOfName (ch : Char) : Bool := isIdentifierPart ch.toNat

theorem partOfName_of_isDigitIn {base : Nat} {ch : Char} (h : isDigitIn base ch = true) :
    partOfName ch = true := by
  have hcases : (0x30 ≤ ch.toNat ∧ ch.toNat ≤ 0x39) ∨ (0x61 ≤ ch.toNat ∧ ch.toNat ≤ 0x66)
      ∨ (0x41 ≤ ch.toNat ∧ ch.toNat ≤ 0x46) := by
    unfold isDigitIn hexValue? at h
    simp only [Char.le_def, UInt32.le_iff_toNat_le] at h
    simp only [Char.toNat]
    split at h
    · next hd =>
      split at hd
      · next hr => exact Or.inl hr
      · split at hd
        · next hr => exact Or.inr (Or.inl hr)
        · split at hd
          · next hr => exact Or.inr (Or.inr hr)
          · cases hd
    · cases h
  unfold partOfName isIdentifierPart isIdentifierStart isAsciiIdentifierStart
  have hlt : ch.toNat < 0x80 := by omega
  simp only [hlt, if_true, Bool.or_eq_true, Bool.and_eq_true, decide_eq_true_eq, beq_iff_eq]
  omega

/-! ## Numbers -/

theorem skipDigits_length_lt {base : Nat} (h : digitAhead base c = true) :
    (skipDigits base c).rest.length < c.rest.length := by
  have hpeek : c.peek? ≠ none := by
    intro hnone
    simp [digitAhead, hnone] at h
  rw [digitAhead, peek?_eq_head?] at h
  rw [skipDigits, skipWhile_rest]
  cases hr : c.rest with
  | nil => simp [hr] at h
  | cons g gs =>
    have hg : isDigitIn base g.char = true := by simpa [hr] using h
    rw [List.dropWhile_cons_of_pos (by simp [hg])]
    have := (List.dropWhile_suffix (l := gs)
      (fun g => isDigitIn base g.char || g.char == '_')).length_le
    rw [List.length_cons]
    omega

theorem digitAhead_of_beside {base : Nat} (h : Beside t t' c c') (hlt : t.length < c.rest.length)
    (hdigit : digitAhead base c = true) : digitAhead base c' = true := by
  rw [digitAhead, ← (h.advance hlt).1]
  exact hdigit

theorem skipDigits_beside {base : Nat} (h : Beside t t' c c') (hpart : Stops partOfName t')
    (hlen : t.length ≤ (skipDigits base c).rest.length) :
    Beside t t' (skipDigits base c) (skipDigits base c') := by
  refine h.skipWhile (hpart.mono ?_) hlen
  intro ch hch
  rw [Bool.or_eq_true, beq_iff_eq] at hch
  rcases hch with hch | rfl
  · exact partOfName_of_isDigitIn hch
  · decide

theorem skipOneOf_beside {cs : List Char} (h : Beside t t' c c') (hstop : Stops (cs.contains ·) t')
    (hlen : t.length ≤ (skipOneOf cs c).rest.length) :
    Beside t t' (skipOneOf cs c) (skipOneOf cs c') := by
  unfold skipOneOf at hlen ⊢
  by_cases hany : c.peek?.any (cs.contains ·) = true
  · rw [if_pos hany] at hlen ⊢
    have hsome : c.peek? ≠ none := by
      intro hnone
      simp [hnone] at hany
    have hlt : t.length < c.rest.length := Nat.lt_of_le_of_lt hlen (advance_length_lt hsome)
    obtain ⟨hpeek, hadv⟩ := h.advance hlt
    rw [if_pos (by rw [← hpeek]; exact hany)]
    exact hadv
  · rw [if_neg hany]
    rw [if_neg (by rw [h.any_eq_false hstop (by simpa using hany)]; exact Bool.false_ne_true)]
    exact h

/-- Within the common text nothing behind it is looked at. -/
theorem skipOneOf_beside_of_lt (cs : List Char) (h : Beside t t' c c')
    (hlt : t.length < c.rest.length) : Beside t t' (skipOneOf cs c) (skipOneOf cs c') := by
  obtain ⟨hpeek, hadv⟩ := h.advance hlt
  unfold skipOneOf
  rw [← hpeek]
  split
  · exact hadv
  · exact h

theorem readRadixNumber_lockstep {base : Nat} (h : readRadixNumber base c = .ok d)
    (hb : Beside d.rest t' c c') (hpart : Stops partOfName t') :
    c.peek? = c'.peek? ∧ c.peekSecond? = c'.peekSecond?
      ∧ ∃ d', readRadixNumber base c' = .ok d' ∧ Beside d.rest t' d d' := by
  unfold readRadixNumber at h
  dsimp only at h
  split at h
  · next hdigit =>
    cases h
    have hone := (skipOneOf_reaches ['n'] (skipDigits base (c.advanceBy 2))).suffix.length_le
    have hdig := skipDigits_length_lt hdigit
    have hadv : c.advanceBy 2 = c.advance.advance := rfl
    have h1 := advance_length_le c.advance
    have h2 := advance_length_le c
    rw [hadv] at hone hdig hb hdigit ⊢
    -- The zero and the mark lie in the common text, because a digit follows them there.
    obtain ⟨hp1, hb1⟩ := hb.advance (by omega)
    obtain ⟨hp2, hb2⟩ := hb1.advance (by omega)
    refine ⟨hp1, ?_, ?_⟩
    · rw [peekSecond?_eq, peekSecond?_eq]
      exact hp2
    · have hdigit' := digitAhead_of_beside hb2 (by omega) hdigit
      have hb3 := skipDigits_beside hb2 hpart hone
      refine ⟨skipOneOf ['n'] (skipDigits base c'.advance.advance), ?_, ?_⟩
      · unfold readRadixNumber
        exact if_pos hdigit'
      · refine skipOneOf_beside hb3 (hpart.mono ?_) (Nat.le_refl _)
        intro ch hch
        simp only [List.contains_cons, List.contains_nil, Bool.or_false, beq_iff_eq] at hch
        subst hch
        decide
  · cases h

theorem readExponent_lockstep {start : Position} (h : readExponent start c = .ok d)
    (start' : Position) (hb : Beside d.rest t' c c') (hpart : Stops partOfName t') :
    ∃ d', readExponent start' c' = .ok d' ∧ Beside d.rest t' d d' := by
  unfold readExponent at h
  split at h
  · next he =>
    dsimp only at h
    split at h
    · next hdigit =>
      cases h
      have hdig := skipDigits_length_lt hdigit
      have hone := (skipOneOf_reaches ['+', '-'] c.advance).suffix.length_le
      have hadv := advance_length_le c
      -- The sign is in the common text, since the digits behind it are.
      obtain ⟨hp, hb1⟩ := hb.advance (by omega)
      have hb2 := skipOneOf_beside_of_lt ['+', '-'] hb1 (by omega)
      have hdigit' := digitAhead_of_beside hb2 hdig hdigit
      refine ⟨skipDigits 10 (skipOneOf ['+', '-'] c'.advance), ?_,
        skipDigits_beside hb2 hpart (Nat.le_refl _)⟩
      unfold readExponent
      rw [if_pos (by rw [← hp]; exact he)]
      exact if_pos hdigit'
    · cases h
  · next he =>
    cases h
    refine ⟨c', ?_, hb⟩
    have hstop : Stops (['e', 'E'].contains ·) t' := by
      refine hpart.mono ?_
      intro ch hch
      simp only [List.contains_cons, List.contains_nil, Bool.or_false, Bool.or_eq_true,
        beq_iff_eq] at hch
      rcases hch with rfl | rfl
      · decide
      · decide
    unfold readExponent
    rw [hb.any_eq_false hstop (by simpa using he)]
    rfl

theorem readDecimalNumber_lockstep (h : readDecimalNumber c = .ok d)
    (hb : Beside d.rest t' c c') (hpart : Stops partOfName t') (hdot : Stops (· == '.') t') :
    ∃ d', readDecimalNumber c' = .ok d' ∧ Beside d.rest t' d d' := by
  unfold readDecimalNumber at h
  dsimp only at h
  split at h
  · next hn =>
    cases h
    have hlt := advance_length_lt (c := skipDigits 10 c) (by rw [hn]; exact Option.some_ne_none _)
    have hb1 := skipDigits_beside hb hpart (Nat.le_of_lt hlt)
    obtain ⟨hpeek, hb2⟩ := hb1.advance hlt
    refine ⟨(skipDigits 10 c').advance, ?_, hb2⟩
    unfold readDecimalNumber
    exact if_pos (by rw [← hpeek]; exact hn)
  · next hn =>
    have hreach := (readExponent_reaches h).suffix.length_le
    have hlen : d.rest.length ≤ (skipDigits 10 c).rest.length := by
      split at hreach
      · exact Nat.le_trans hreach (Nat.le_trans (skipDigits_reaches 10 _).suffix.length_le
          (advance_length_le _))
      · exact hreach
    have hb1 := skipDigits_beside hb hpart hlen
    -- No suffix here, and none can come from `t'`: it would go on the word.
    have hn' : (skipDigits 10 c').peek? ≠ some 'n' := by
      refine hb1.peek?_ne (hpart.mono fun ch hch => ?_) hn
      obtain rfl : ch = 'n' := by simpa using hch
      decide
    -- behind the point, if there is one
    have hb2 : Beside d.rest t'
        (if (skipDigits 10 c).peek? = some '.' then skipDigits 10 (skipDigits 10 c).advance
          else skipDigits 10 c)
        (if (skipDigits 10 c').peek? = some '.' then skipDigits 10 (skipDigits 10 c').advance
          else skipDigits 10 c') := by
      by_cases hp : (skipDigits 10 c).peek? = some '.'
      · rw [if_pos hp] at hreach ⊢
        have hlt := advance_length_lt (c := skipDigits 10 c)
          (by rw [hp]; exact Option.some_ne_none _)
        have hdig := (skipDigits_reaches 10 (skipDigits 10 c).advance).suffix.length_le
        obtain ⟨hpeek, hadv⟩ := hb1.advance (by omega)
        rw [if_pos (by rw [← hpeek]; exact hp)]
        exact skipDigits_beside hadv hpart hreach
      · have hp' := hb1.peek?_ne hdot hp
        rw [if_neg hp, if_neg hp']
        exact hb1
    obtain ⟨d', hd', hbd⟩ := readExponent_lockstep h c'.position hb2 hpart
    refine ⟨d', ?_, hbd⟩
    unfold readDecimalNumber
    dsimp only
    rw [if_neg hn']
    exact hd'

/-- The characters behind a zero that announce a base. -/
def radixMarks : List Char := ['x', 'X', 'o', 'O', 'b', 'B']

theorem radixOf?_congr (h₁ : c.peek? = c'.peek?) (h₂ : c.peekSecond? = c'.peekSecond?) :
    radixOf? c = radixOf? c' := by
  unfold radixOf?
  rw [h₁, h₂]

theorem radixOf?_eq_none : radixOf? c = none ↔
    ¬ (c.peek? = some '0' ∧ c.peekSecond?.any (radixMarks.contains ·) = true) := by
  unfold radixOf? radixMarks
  split
  · next h0 =>
    cases c.peekSecond? with
    | none => simp
    | some ch =>
      simp only [h0, Option.any_some, true_and]
      split
      all_goals simp_all
  · next h0 => simp [h0]

/-- A number without the check of what follows it. -/
def readDigits (c : Cursor) : Except LexError Cursor :=
  match radixOf? c with
  | some base => readRadixNumber base c
  | none => readDecimalNumber c

theorem readNumber_eq_ok : readNumber c = .ok d ↔
    readDigits c = .ok d ∧ d.peek?.any (fun ch => isIdentifierStart ch.toNat) = false := by
  unfold readNumber
  dsimp only
  split
  next e he =>
    have hdigits : readDigits c = .error e := he
    rw [hdigits]
    simp
  next e he =>
    have hdigits : readDigits c = .ok e := he
    rw [hdigits]
    cases hany : e.peek?.any fun ch => isIdentifierStart ch.toNat with
    | true =>
      simp only [if_true, Except.ok.injEq, reduceCtorEq, false_iff, not_and]
      rintro rfl
      rw [hany]
      exact Bool.noConfusion
    | false =>
      simp only [Bool.false_eq_true, if_false, Except.ok.injEq]
      constructor
      · rintro rfl
        exact ⟨rfl, hany⟩
      · exact fun h => h.1

theorem radixOf?_beside (h : readDecimalNumber c = .ok d) (hb : Beside d.rest t' c c')
    (hpart : Stops partOfName t') (hr : radixOf? c = none) : radixOf? c' = none := by
  rw [radixOf?_eq_none] at hr ⊢
  rintro ⟨hzero, hmark⟩
  by_cases hlt : d.rest.length < c.rest.length
  · obtain ⟨hp, hadv⟩ := hb.advance hlt
    rw [peekSecond?_eq] at hr hmark
    have hany : c.advance.peek?.any (radixMarks.contains ·) = false := by
      rw [← Bool.not_eq_true]
      exact fun hany => hr ⟨hp.trans hzero, hany⟩
    rw [hadv.any_eq_false (hpart.mono fun ch hch => ?_) hany] at hmark
    · cases hmark
    · simp only [radixMarks, List.contains_eq_mem, decide_eq_true_eq, List.mem_cons,
        List.not_mem_nil, or_false] at hch
      rcases hch with rfl | rfl | rfl | rfl | rfl | rfl
      all_goals decide
  · -- nothing was read, so no zero stands in front of `t'`
    have hrest := hb.rest_eq (rest_eq_of_reaches (readDecimalNumber_reaches h) (by omega)).symm
    have hzero' : Stops (· == '0') t' := hpart.mono fun ch hch => by
      obtain rfl : ch = '0' := by simpa using hch
      decide
    rw [peek?_eq_head?, hrest] at hzero
    cases hhead : t'.head? with
    | none => simp [hhead] at hzero
    | some g =>
      have hg := hzero' g (by rw [hhead]; rfl)
      rw [hhead, Option.map_some, Option.some.injEq] at hzero
      rw [hzero] at hg
      cases hg

theorem readDigits_lockstep (h : readDigits c = .ok d) (hb : Beside d.rest t' c c')
    (hpart : Stops partOfName t') (hdot : Stops (· == '.') t') :
    ∃ d', readDigits c' = .ok d' ∧ Beside d.rest t' d d' := by
  unfold readDigits at h ⊢
  cases hr : radixOf? c with
  | some base =>
    rw [hr] at h
    obtain ⟨hp, hp2, d', hd', hbd⟩ := readRadixNumber_lockstep h hb hpart
    rw [← radixOf?_congr hp hp2, hr]
    exact ⟨d', hd', hbd⟩
  | none =>
    rw [hr] at h
    obtain ⟨d', hd', hbd⟩ := readDecimalNumber_lockstep h hb hpart hdot
    rw [radixOf?_beside h hb hpart hr]
    exact ⟨d', hd', hbd⟩

/-- **A number is read as the same number in front of anything that cannot extend it.** -/
theorem readNumber_lockstep (h : readNumber c = .ok d) (hb : Beside d.rest t' c c')
    (hpart : Stops partOfName t') (hdot : Stops (· == '.') t') :
    ∃ d', readNumber c' = .ok d' ∧ d'.rest = t' := by
  obtain ⟨d', hd', hbd⟩ := readDigits_lockstep (readNumber_eq_ok.mp h).1 hb hpart hdot
  have hrest := hbd.rest_eq rfl
  refine ⟨d', readNumber_eq_ok.mpr ⟨hd', ?_⟩, hrest⟩
  have hstart : Stops (fun ch => isIdentifierStart ch.toNat) t' :=
    hpart.mono fun ch hch => isIdentifierPart_of_isIdentifierStart hch
  rw [peek?_eq_head?, hrest]
  cases hhead : t'.head? with
  | none => rfl
  | some g => exact hstart g (by rw [hhead]; rfl)

/-! ## Regular expressions -/

/-- Both cursors read the same character. -/
theorem next?_beside {ch : Char} (hb : Beside t t' c c') (hlt : t.length < c.rest.length)
    (hn : c.next? = some (ch, d)) : ∃ d', c'.next? = some (ch, d') ∧ Beside t t' d d' := by
  obtain ⟨hpeek, hadv⟩ := hb.advance hlt
  obtain ⟨g, hg, rfl⟩ := reads_of_next? hn
  have hd : c.advance = d := hg.advance_eq
  rw [hd] at hadv
  obtain ⟨gs, hc, hc'⟩ := hb
  cases hr' : c'.rest with
  | nil =>
    rw [peek?_eq_head?, peek?_eq_head?, hr', hg.rest_eq] at hpeek
    cases hpeek
  | cons g' rest' =>
    rw [peek?_eq_head?, peek?_eq_head?, hr', hg.rest_eq] at hpeek
    have hchar : g.char = g'.char := by simpa using hpeek
    refine ⟨c'.advance, ?_, hadv⟩
    rw [next?_of_cons hr', hchar]

theorem readRegexpBody_lockstep {start : Position} {escaped inClass : Bool}
    (h : readRegexpBody start escaped inClass c = .ok d) (start' : Position)
    (hb : Beside t t' c c') (hlen : t.length ≤ d.rest.length) :
    ∃ d', readRegexpBody start' escaped inClass c' = .ok d' ∧ Beside t t' d d' := by
  fun_induction readRegexpBody start escaped inClass c generalizing c' with
  | case1 => cases h
  | case2 => cases h
  | case3 inClass c ch e hn hl ih =>
    have hle := (readRegexpBody_reaches h).suffix.length_le
    obtain ⟨e', hn', hbe⟩ := next?_beside hb (by have := next?_length hn; omega) hn
    obtain ⟨d', hd', hbd⟩ := ih h hbe
    refine ⟨d', ?_, hbd⟩
    rw [readRegexpBody_eq, hn']
    dsimp only
    rw [if_neg hl, if_pos rfl, hd']
  | case4 escaped inClass c ch e hn hl he hs =>
    cases h
    obtain ⟨e', hn', hbe⟩ := next?_beside hb (by have := next?_length hn; omega) hn
    refine ⟨e', ?_, hbe⟩
    rw [readRegexpBody_eq, hn']
    dsimp only
    rw [if_neg hl, if_neg he, if_pos hs]
  | case5 escaped inClass c ch e hn hl he hs ih =>
    have hle := (readRegexpBody_reaches h).suffix.length_le
    obtain ⟨e', hn', hbe⟩ := next?_beside hb (by have := next?_length hn; omega) hn
    obtain ⟨d', hd', hbd⟩ := ih h hbe
    refine ⟨d', ?_, hbd⟩
    rw [readRegexpBody_eq, hn']
    dsimp only
    rw [if_neg hl, if_neg he, if_neg hs, hd']

theorem readRegexpBody_length_lt {start : Position} {escaped inClass : Bool}
    (h : readRegexpBody start escaped inClass c = .ok d) : d.rest.length < c.rest.length := by
  fun_induction readRegexpBody start escaped inClass c with
  | case1 => cases h
  | case2 => cases h
  | case3 inClass c ch e hn hl ih => exact Nat.lt_trans (ih h) (next?_length hn)
  | case4 => cases h; exact next?_length (by assumption)
  | case5 escaped inClass c ch e hn hl he hs ih => exact Nat.lt_trans (ih h) (next?_length hn)

/-- A regular expression takes both of its slashes. -/
theorem readRegexp_length_lt (h : readRegexp c = .ok d) :
    d.rest.length < c.advance.rest.length := by
  unfold readRegexp at h
  split at h
  · cases h
  · next e he =>
    cases h
    exact Nat.lt_of_le_of_lt (reaches_skipWhile _ e).suffix.length_le (readRegexpBody_length_lt he)

/-- **A regular expression is read as the same one in front of anything that is no flag.** -/
theorem readRegexp_lockstep (h : readRegexp c = .ok d) (hb : Beside d.rest t' c c')
    (hpart : Stops partOfName t') : ∃ d', readRegexp c' = .ok d' ∧ d'.rest = t' := by
  have hlt := Nat.lt_of_lt_of_le (readRegexp_length_lt h) (advance_length_le c)
  unfold readRegexp at h
  split at h
  · cases h
  · next e he =>
    cases h
    have hle := (reaches_skipWhile (fun ch => isIdentifierPart ch.toNat) e).suffix.length_le
    obtain ⟨_, hadv⟩ := hb.advance hlt
    obtain ⟨e', he', hbe⟩ := readRegexpBody_lockstep he c'.position hadv hle
    refine ⟨e'.skipWhile fun ch => isIdentifierPart ch.toNat, ?_, ?_⟩
    · unfold readRegexp
      rw [he']
    · exact (hbe.skipWhile hpart (Nat.le_refl _)).rest_eq rfl

/-! ## Template chunks -/

theorem readChunk_ends {start : Position} (h : readChunk start c = .ok d) :
    chunkEnds d = true := by
  fun_induction readChunk start c with
  | case1 => cases h
  | case2 => cases h; assumption
  | case3 c e hends hn ih => exact ih h
  | case4 c ch e hn hends hb ih => exact ih h

theorem chunkEnds_congr (h₁ : c.peek? = c'.peek?) (h₂ : c.peekSecond? = c'.peekSecond?) :
    chunkEnds c = chunkEnds c' := by
  unfold chunkEnds
  rw [h₁, h₂]

/-- Two texts that both end here, and go on with the same character, end at the same place. -/
theorem chunkEnds_beside (hb : Beside d.rest t' c c') (hends : chunkEnds d = true)
    (hends' : ∀ x : Cursor, x.rest = t' → chunkEnds x = true)
    (hhead : d.rest.head?.map (·.char) = t'.head?.map (·.char)) :
    chunkEnds c = chunkEnds c' := by
  obtain ⟨gs, hc, hc'⟩ := hb
  match gs, hc, hc' with
  | [], hc, hc' =>
    have hcd : chunkEnds c = chunkEnds d := by
      refine chunkEnds_congr ?_ ?_
      · rw [peek?_eq_head?, hc]
        rfl
      · rw [peekSecond?, hc]
        rfl
    rw [hcd, hends, hends' c' hc']
  -- the second character is already the first of what follows
  | [g], hc, hc' =>
    refine chunkEnds_congr ?_ ?_
    · rw [peek?_eq_head?, peek?_eq_head?, hc, hc']
      rfl
    · rw [peekSecond?, peekSecond?, hc, hc']
      exact hhead
  | g :: k :: gs, hc, hc' =>
    refine chunkEnds_congr ?_ ?_
    · rw [peek?_eq_head?, peek?_eq_head?, hc, hc']
      rfl
    · rw [peekSecond?, peekSecond?, hc, hc']
      rfl

/-- **A template chunk is read as the same chunk in front of the same delimiter.** -/
theorem readChunk_lockstep {start : Position} (h : readChunk start c = .ok d) (start' : Position)
    (hb : Beside d.rest t' c c') (hends' : ∀ x : Cursor, x.rest = t' → chunkEnds x = true)
    (hhead : d.rest.head?.map (·.char) = t'.head?.map (·.char)) :
    ∃ d', readChunk start' c' = .ok d' ∧ d'.rest = t' := by
  have hd := readChunk_ends h
  have hne : d.rest ≠ [] := by
    intro hnil
    simp [chunkEnds, peek?_eq_head?, hnil] at hd
  fun_induction readChunk start c generalizing c' with
  | case1 => cases h
  | case2 c ch e hn hends =>
    cases h
    have hrest := hb.rest_eq rfl
    refine ⟨c', ?_, hrest⟩
    have hhere := hends' c' hrest
    rw [readChunk_eq]
    cases hn' : c'.next? with
    | none => simp [chunkEnds, peek?_eq_head?, next?_eq_none.mp hn'] at hhere
    | some r =>
      dsimp only
      rw [if_pos hhere]
  | case3 c e hends hn ih =>
    have hle := (readChunk_reaches h).suffix.length_le
    -- the character behind a backslash is still in front of the end of the chunk
    have hlt : e.advance.rest.length < e.rest.length := by
      refine advance_length_lt ?_
      intro hnone
      have hnil : e.rest = [] := by simpa [peek?_eq_head?] using hnone
      rw [advance_rest, hnil] at hle
      exact hne (List.eq_nil_of_length_eq_zero (by simpa using hle))
    obtain ⟨e', hn', hbe⟩ := next?_beside hb (by have := next?_length hn; omega) hn
    obtain ⟨d', hd', hrest⟩ := ih h (hbe.advance (by omega)).2
    refine ⟨d', ?_, hrest⟩
    rw [readChunk_eq, hn']
    dsimp only
    rw [if_neg (by rw [← chunkEnds_beside hb hd hends' hhead]; exact hends), if_pos rfl, hd']
  | case4 c ch e hn hends hbs ih =>
    have hle := (readChunk_reaches h).suffix.length_le
    obtain ⟨e', hn', hbe⟩ := next?_beside hb (by have := next?_length hn; omega) hn
    obtain ⟨d', hd', hrest⟩ := ih h hbe
    refine ⟨d', ?_, hrest⟩
    rw [readChunk_eq, hn']
    dsimp only
    rw [if_neg (by rw [← chunkEnds_beside hb hd hends' hhead]; exact hends), if_neg hbs, hd']

end Scanner

end ScriptTidy
