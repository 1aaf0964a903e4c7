import ScriptTidy.Layout.Rules
import ScriptTidy.Proofs.Scanner.StringLiteral

/-!
# Neighbouring tokens

Two texts that are written without white space between them may be read as something else. By
their kinds and first characters, `Kind.joins` tells for which pairs this can happen, and this
file compares the table with the spacing rules.

* `separated_of_startsAs` : outside the table nothing joins.
* `needsSpace_of_joins` : inside it the spacing rules put a space, up to the pairs of
  `Kind.glued`, which come out without one.
-/

namespace ScriptTidy

open Scanner

/-! ## First characters -/

/-- The characters that the text of a token of each kind may start with. -/
def StartsAs (kind : Kind) (ch : Char) : Prop :=
  match kind with
  | .string => ch = '\''
  | .regexp => ch = '/'
  | .privateName => ch = '#'
  | .num => isDigitIn 10 ch = true ∨ ch = '.'
  | .punct p => ch = p.firstChar ∧ p ≠ .dollarBraceL
  | _ => isIdentifierStart ch.toNat = true

/-- The first glyph of a raw text is that of the cursor it was read from, if it is a character
of one byte. -/
theorem glyphs_head_of_reads {c d : Cursor} {gs : List Glyph} {ch : Char} (h : c.Reads gs d)
    (hdec : Utf8.IsDecoding gs) (hlt : d.rest.length < c.rest.length) (hpeek : c.peek? = some ch)
    (hascii : ch.toNat < 0x80) (rest : Bytes) :
    ∃ r, Utf8.glyphs (gs.flatMap (·.bytes) ++ rest) = ⟨ch, Utf8.encodeChar ch⟩ :: r := by
  have hrest := h.rest_eq
  cases gs with
  | nil =>
    rw [hrest, List.nil_append] at hlt
    exact absurd hlt (Nat.lt_irrefl _)
  | cons g gs =>
    have hch : g.char = ch := by
      rw [Cursor.peek?_eq_head?, hrest] at hpeek
      exact Option.some.inj hpeek
    have hbytes : g.bytes = Utf8.encodeChar ch := by
      rcases hdec.bytes_eq g List.mem_cons_self with hr | hb
      · rw [hch] at hr
        rw [hr] at hascii
        exact absurd hascii (by decide)
      · rw [hb, hch]
    refine ⟨Utf8.glyphs (gs.flatMap (·.bytes) ++ rest), ?_⟩
    rw [List.flatMap_cons, hbytes, List.append_assoc, Utf8.glyphs_encodeChar]

/-- **Each text starts as its kind does**, whatever follows it. -/
theorem text_startsAs {exprAllowed : Bool} {t : Token} (h : Lexeme exprAllowed t.kind t.value)
    (rest : Bytes) : ∃ g r, Utf8.glyphs (t.text ++ rest) = g :: r ∧ StartsAs t.kind g.char := by
  obtain ⟨kind, value, first, last⟩ := t
  dsimp only at h ⊢
  unfold Token.text
  dsimp only
  cases h with
  | @word chars hchars =>
    have hne := encodeChars_ne_nil hchars
    obtain ⟨ch, cs, rfl, hch, _⟩ := hchars
    rcases wordKind_cases (Utf8.encodeChars (ch :: cs)) with ⟨k, hk⟩ | hk
    · rw [hk]
      dsimp only
      rw [if_neg (by simpa using hne), Utf8.glyphs_encodeChars]
      exact ⟨_, _, rfl, hch⟩
    · rw [hk]
      dsimp only
      rw [Utf8.glyphs_encodeChars]
      exact ⟨_, _, rfl, hch⟩
  | privateName hchars => exact ⟨_, _, Utf8.glyphs_ascii_cons (by decide) _, rfl⟩
  -- the first glyph of a raw text is known from the cursor that it was read from
  | number hstart hread hgs hdec =>
    obtain ⟨ch, hpeek, hch⟩ := startsNumber_peek? hstart
    have hascii : ch.toNat < 0x80 := by
      rcases hch with hdigit | rfl
      · rw [isDigitIn_ten, Char.le_def, Char.le_def, UInt32.le_iff_toNat_le,
          UInt32.le_iff_toNat_le] at hdigit
        have h9 : ('9' : Char).val.toNat = 0x39 := rfl
        have hval : ch.val.toNat = ch.toNat := rfl
        omega
      · decide
    obtain ⟨r, hr⟩ := glyphs_head_of_reads hgs hdec (readNumber_length_lt hstart hread).1 hpeek
      hascii rest
    exact ⟨_, r, hr, hch⟩
  | string hns => exact ⟨_, _, Utf8.glyphs_ascii_cons (by decide) _, rfl⟩
  | regexp _ hslash _ _ hread hgs hdec =>
    have hlt := Nat.lt_of_lt_of_le (readRegexp_length_lt hread) (Cursor.advance_length_le _)
    obtain ⟨r, hr⟩ := glyphs_head_of_reads hgs hdec hlt hslash (by decide) rest
    exact ⟨_, r, hr, rfl⟩
  | @punct p hp _ =>
    show ∃ g r, Utf8.glyphs (utf8 p.label ++ rest) = g :: r ∧ _
    rw [glyphs_utf8_append p.ascii_label, p.label_toList]
    exact ⟨_, _, rfl, rfl, hp⟩

theorem StartsAs.ne_replacementChar {kind : Kind} {ch : Char} (h : StartsAs kind ch) :
    ch ≠ replacementChar := by
  have hname : isIdentifierStart replacementChar.toNat = false := by decide +kernel
  have hnumber : ¬ (isDigitIn 10 replacementChar = true ∨ replacementChar = '.') := by decide
  rintro rfl
  cases kind with
  | string => cases h
  | regexp => cases h
  | privateName => cases h
  | num => exact hnumber h
  | punct p =>
    obtain ⟨he, _⟩ := h
    revert he
    cases p <;> decide
  | _ => exact absurd (hname.symm.trans h) Bool.false_ne_true

/-- The text of a token cannot complete a character before it. -/
theorem fresh_text {exprAllowed : Bool} {t : Token} (h : Lexeme exprAllowed t.kind t.value) :
    Utf8.Fresh t.text := by
  obtain ⟨g, r, hglyphs, hg⟩ := text_startsAs h []
  rw [List.append_nil] at hglyphs
  exact Utf8.fresh_of_glyphs hglyphs hg.ne_replacementChar

/-! ## Pairs that join -/

/-- Whether a token of kind `kind` right behind one of kind `k` can be taken for a part of it,
as far as its first character tells. -/
def Kind.joins (k kind : Kind) : Bool :=
  match k, kind with
  | .string, _ => false
  | .punct p, .punct q => p.extendedBy q.firstChar
  | .punct p, .num => p == .dot || p == .questionDot || p == .question
  | .punct p, .regexp => p == .slash
  | .punct _, _ => false
  | .num, .punct q => q.firstChar == '.'
  | _, .name | _, .num | _, .keyword _ => true
  | _, _ => false

theorem extendedBy_of_digit {p : Punctuator} {ch : Char} (h : isDigitIn 10 ch = true ∨ ch = '.')
    (hp : (p == .dot || p == .questionDot || p == .question) = false) :
    p.extendedBy ch = false := by
  have hcheck : ['?', '=', '*', '/', '|', '&', '+', '-', '<', '>'].all
      (fun x => ¬ (isDigitIn 10 x = true ∨ x = '.')) = true := by decide
  refine extendedBy_eq_false ?_ fun hp' => ?_
  · rintro x hx rfl
    exact of_decide_eq_true (List.all_eq_true.mp hcheck ch hx) h
  · rw [hp] at hp'
    cases hp'

/-- The first characters that cannot go on a word. -/
theorem startsAs_class {kind : Kind} {ch : Char} (h : StartsAs kind ch)
    (hk : kind.isComment = false ∧ kind ≠ .eof ∧ kind ≠ .template)
    (hj : Kind.joins .name kind = false) :
    partOfName ch = false ∧ ch ≠ '\\' := by
  cases kind with
  | string => cases h; decide
  | regexp => cases h; decide
  | privateName => cases h; decide
  | punct p =>
    obtain ⟨rfl, hp⟩ := h
    revert hp
    cases p <;> decide
  | num => cases hj
  | name => cases hj
  | keyword k => cases hj
  | template => exact absurd rfl hk.2.2
  | eof => exact absurd rfl hk.2.1
  | lineComment => cases hk.1
  | blockComment => cases hk.1
  | hashbang => cases hk.1

theorem extendedBy_of_startsAs {p : Punctuator} {kind : Kind} {ch : Char} (h : StartsAs kind ch)
    (hj : Kind.joins (.punct p) kind = false) : p.extendedBy ch = false := by
  cases kind with
  | string => cases h; cases p <;> rfl
  | privateName => cases h; cases p <;> rfl
  | regexp =>
    cases h
    revert hj
    cases p <;> decide
  | num => exact extendedBy_of_digit h hj
  | punct q => rw [h.1]; exact hj
  | _ => exact extendedBy_of_isIdentifierStart h

/-- What no word joins is joined by nothing but strings and punctuators. -/
theorem joins_name {k kind : Kind} (hstring : k ≠ .string) (hpunct : ∀ p, k ≠ .punct p)
    (hj : k.joins kind = false) : Kind.joins .name kind = false := by
  cases k with
  | string => exact absurd rfl hstring
  | punct p => exact absurd rfl (hpunct p)
  | _ => cases kind <;> first | rfl | exact hj

/-- **Outside the table nothing joins**: a token is read to its end in front of the text of the
other. -/
theorem separated_of_startsAs {k kind : Kind} {text : Bytes} {g : Glyph} {gs : List Glyph}
    (h : Utf8.glyphs text = g :: gs) (hg : StartsAs kind g.char)
    (hkind : kind.isComment = false ∧ kind ≠ .eof ∧ kind ≠ .template)
    (hj : k.joins kind = false) : Separated k text := by
  have hstops : ∀ {p : Char → Bool}, p g.char = false → Cursor.Stops p (Utf8.glyphs text) := by
    intro p hp
    rw [h]
    exact Cursor.stops_cons hp
  have hfresh : Utf8.Fresh text := Utf8.fresh_of_glyphs h hg.ne_replacementChar
  unfold Separated
  split
  next => trivial
  next p => exact hstops (extendedBy_of_startsAs hg hj)
  next =>
    obtain ⟨hpart, _⟩ := startsAs_class hg hkind
      (joins_name Kind.noConfusion (fun _ => Kind.noConfusion) hj)
    refine ⟨hfresh, hstops hpart, hstops ?_⟩
    -- only a point would go on with a number
    generalize g.char = ch at hg
    cases kind with
    | string => cases hg; rfl
    | regexp => cases hg; rfl
    | privateName => cases hg; rfl
    | punct q => rw [hg.1]; exact hj
    | num => cases hj
    | name => cases hj
    | keyword k => cases hj
    | template => exact absurd rfl hkind.2.2
    | eof => exact absurd rfl hkind.2.1
    | lineComment => cases hkind.1
    | blockComment => cases hkind.1
    | hashbang => cases hkind.1
  next =>
    obtain ⟨hpart, _⟩ := startsAs_class hg hkind
      (joins_name Kind.noConfusion (fun _ => Kind.noConfusion) hj)
    exact ⟨hfresh, hstops hpart⟩
  next hstring hpunct _ _ =>
    obtain ⟨hpart, hback⟩ := startsAs_class hg hkind (joins_name hstring hpunct hj)
    exact ⟨hstops hpart, hstops (by simpa using hback)⟩

/-! ## Spaces -/

/-- The pairs that come out without white space between them although they join. Pairs of a
regular expression and a word are not among them: they may stand on two lines. -/
def Kind.glued : (k kind : Kind) → Bool
  | .punct .dot, .punct .dot | .punct .dot, .punct .ellipsis | .punct .dot, .num => true
  | .punct .questionDot, .num | .num, .punct .ellipsis => true
  | .punct .not, .punct .arrow | .punct .starStar, .punct .arrow => true
  | _, _ => false

theorem spaceBetween_of_isWordLike {last kind : Kind} (hl : Rules.isWordLike last = true)
    (hk : Rules.isWordLike kind = true) : Rules.spaceBetween last kind = true := by
  have hdot : kind ≠ .punct .dot := by
    rintro rfl
    cases hk
  unfold Rules.spaceBetween
  rw [if_neg hdot, hl, hk]
  cases last with
  | keyword w =>
    have hsemi : (kind != .punct .semi) = true := by
      rw [bne_iff_ne]
      rintro rfl
      cases hk
    cases w <;> simp [Kind.keyword?, Rules.spaceBehindKeyword?, hsemi]
  | _ => simp [Kind.keyword?]

/-- The punctuators that have no space behind them and that a character may extend. -/
theorem extendedBy_of_not_wantsSpaceBehind {p : Punctuator} {ch : Char}
    (h : Rules.wantsSpaceBehind (.punct p) = false) (hext : p.extendedBy ch = true) :
    p = .dot ∨ p = .questionDot ∨ p = .starStar ∨ p = .not := by
  cases p <;> first | cases hext | decide | cases h

theorem exists_of_isKeyword {k : Kind} (h : k.isKeyword = true) : ∃ w, k = .keyword w := by
  cases k with
  | keyword w => exact ⟨w, rfl⟩
  | _ => cases h

/-- A keyword that is taken as a name joins as it did. -/
theorem joins_renamed {k k' kind kind' : Kind} (hk : k' = k ∨ k.isKeyword = true ∧ k' = .name)
    (hkind : kind' = kind ∨ kind.isKeyword = true ∧ kind' = .name) :
    k'.joins kind' = k.joins kind ∧ k'.glued kind' = k.glued kind := by
  have hfirst : ∀ y : Kind, k'.joins y = k.joins y ∧ k'.glued y = k.glued y := by
    intro y
    rcases hk with rfl | ⟨hword, rfl⟩
    · exact ⟨rfl, rfl⟩
    · obtain ⟨w, rfl⟩ := exists_of_isKeyword hword
      cases y <;> exact ⟨rfl, rfl⟩
  have hsecond : k.joins kind' = k.joins kind ∧ k.glued kind' = k.glued kind := by
    rcases hkind with rfl | ⟨hword, rfl⟩
    · exact ⟨rfl, rfl⟩
    · obtain ⟨w, rfl⟩ := exists_of_isKeyword hword
      cases k with
      | punct p => cases p <;> exact ⟨rfl, rfl⟩
      | _ => exact ⟨rfl, rfl⟩
  exact ⟨(hfirst kind').1.trans hsecond.1, (hfirst kind').2.trans hsecond.2⟩

/-- The rules ask for a space between a punctuator and what joins it. -/
theorem wantsSpace_of_joins_punct {p : Punctuator} {kind : Kind}
    (hj : (Kind.punct p).joins kind = true) (hglued : (Kind.punct p).glued kind = false) :
    (Rules.spaceBetween (.punct p) kind || kind.precedence != 0 || kind.isAssign) = true := by
  -- Operators have a space behind them; of the rest only four can be extended.
  cases hwants : Rules.wantsSpaceBehind (.punct p) with
  | true =>
    unfold Rules.spaceBetween
    rw [hwants]
    rfl
  | false =>
    cases kind with
    | punct q =>
      rcases extendedBy_of_not_wantsSpaceBehind hwants hj with rfl | rfl | rfl | rfl
      all_goals
        revert hj hglued
        cases q <;> decide
    | num =>
      revert hj hglued hwants
      cases p <;> decide
    | regexp =>
      revert hj hwants
      cases p <;> decide
    | _ => cases hj

/-- The rules ask for a space between kinds that join. -/
theorem wantsSpace_of_joins {k kind : Kind}
    (hk : k.isComment = false ∧ k ≠ .eof ∧ k ≠ .template) (hregexp : k ≠ .regexp)
    (hj : k.joins kind = true) (hglued : k.glued kind = false) :
    (Rules.spaceBetween k kind || kind.precedence != 0 || kind.isAssign) = true := by
  have hword : Rules.isWordLike k = true → Rules.isWordLike kind = true →
      (Rules.spaceBetween k kind || kind.precedence != 0 || kind.isAssign) = true := by
    intro hwk hwkind
    rw [spaceBetween_of_isWordLike hwk hwkind, Bool.true_or, Bool.true_or]
  cases k with
  | string => cases hj
  | regexp => exact absurd rfl hregexp
  | template => exact absurd rfl hk.2.2
  | eof => exact absurd rfl hk.2.1
  | lineComment => cases hk.1
  | blockComment => cases hk.1
  | hashbang => cases hk.1
  | name => cases kind <;> first | exact hword rfl rfl | cases hj
  | privateName => cases kind <;> first | exact hword rfl rfl | cases hj
  | keyword w => cases kind <;> first | exact hword rfl rfl | cases hj
  | num =>
    cases kind with
    | punct q =>
      revert hj hglued
      cases q <;> decide
    | _ => first | exact hword rfl rfl | cases hj
  | punct p => exact wantsSpace_of_joins_punct hj hglued

/-- **The spacing rules keep joining tokens apart**, except for glued pairs and words behind a
regular expression. -/
theorem needsSpace_of_joins (last : LastToken) {k kind kind' : Kind}
    (hlast : last.kind = k ∨ k.isKeyword = true ∧ last.kind = .name)
    (hkind : kind' = kind ∨ kind.isKeyword = true ∧ kind' = .name)
    (hk : k.isComment = false ∧ k ≠ .eof ∧ k ≠ .template) (hregexp : k ≠ .regexp)
    (hj : k.joins kind = true) (hglued : k.glued kind = false) :
    Rules.needsSpace kind' (some last) = true := by
  obtain ⟨hjoins, hglues⟩ := joins_renamed hlast hkind
  have hordinary : (last.kind.isComment = false ∧ last.kind ≠ .eof ∧ last.kind ≠ .template) ∧
      last.kind ≠ .regexp := by
    rcases hlast with he | ⟨-, he⟩ <;> rw [he]
    · exact ⟨hk, hregexp⟩
    · exact ⟨⟨rfl, Kind.noConfusion, Kind.noConfusion⟩, Kind.noConfusion⟩
  have hspace := wantsSpace_of_joins hordinary.1 hordinary.2 (hjoins.trans hj)
    (hglues.trans hglued)
  unfold Rules.needsSpace
  dsimp only
  rw [hspace, Bool.true_or]

end ScriptTidy
