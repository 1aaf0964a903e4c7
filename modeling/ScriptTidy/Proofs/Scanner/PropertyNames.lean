import ScriptTidy.Proofs.Scanner.Progress
import ScriptTidy.Proofs.Scanner.Relocation

/-!
# Reserved words as names of properties, as the scanner takes them

Behind a point a reserved word is a name, and the scanner takes it for one: no operator is
expected to follow it, and it opens nothing. But it stays the last token, and the next one is taken
by the kind of that. So an `if` that is the name of a method makes the scanner take the arguments
for the condition of a statement, and a slash behind them for a regular expression.

* `Kind.misleads` : for which words and which tokens behind them this happens.
* `tokenize_dotted_agree` : two names of properties that mislead alike are read alike, with all
  that follows.
* `tokenize_propertyName` : a reserved word is read like a name unless it misleads, and wherever it
  misleads there are sources that show it.
-/

namespace ScriptTidy

/-- Whether behind the name of a property a token of kind `kind` is taken for something else if
that name is the reserved word; `newline` tells whether a line ends between the two. -/
def Keyword.misleads (k : Keyword) (kind : Kind) (newline : Bool) : Bool :=
  match kind with
  | .punct .parenL => k == .ifKw || k == .forKw || k == .withKw || k == .whileKw
  | .punct .braceL => if k = .returnKw then newline else k != .varKw && k != .constKw
  | .keyword .functionKw | .keyword .classKw =>
    k.beforeExpr && k != .elseKw && !(k == .returnKw && newline)
  | _ => false

/-- Whether the word is reserved and misleads about the token. A plain name never does. -/
def Kind.misleads (word kind : Kind) (newline : Bool) : Bool :=
  word.keyword?.any fun k => k.misleads kind newline

namespace Scanner

open Cursor

/-! ## What is known behind the name of a property -/

/-- The situation behind the name of a property of a variable, in front of the next token. -/
def behindName (newline : Bool) : Situation := { exprAllowed := false, newlineBefore := newline }

variable {word word' : Bytes}

theorem braceIsBlock_behindName (word : Bytes) (newline : Bool) :
    (behindName newline).braceIsBlock (wordKind word) =
      (wordKind word).misleads (.punct .braceL) newline := by
  rcases wordKind_cases word with ⟨k, hk⟩ | hk
  · rw [hk]
    cases k <;> rfl
  · rw [hk]
    rfl

theorem functionIsExpr_behindName (word : Bytes) (newline : Bool) :
    (behindName newline).functionIsExpr (wordKind word) =
      (wordKind word).misleads (.keyword .functionKw) newline := by
  rcases wordKind_cases word with ⟨k, hk⟩ | hk
  · rw [hk]
    cases k <;> cases newline <;> rfl
  · rw [hk]
    rfl

theorem after_parenL_behindName (word : Bytes) (newline : Bool) (value : Bytes) :
    (behindName newline).after (.punct .parenL) (wordKind word) value =
      { (behindName newline).opening
          (if (wordKind word).misleads (.punct .parenL) newline then .head else .group) with
        exprAllowed := true } := by
  rcases wordKind_cases word with ⟨k, hk⟩ | hk
  · rw [hk]
    cases k <;> rfl
  · rw [hk]
    rfl

/-- **Behind two names that mislead alike a token has the same effect.** -/
theorem after_behindName_congr {kind : Kind} {newline : Bool}
    (h : (wordKind word).misleads kind newline = (wordKind word').misleads kind newline)
    (value : Bytes) : (behindName newline).after kind (wordKind word) value =
      (behindName newline).after kind (wordKind word') value := by
  have hdot : ∀ w, wordKind w ≠ .punct .dot :=
    wordKind_ne Kind.noConfusion fun _ => Kind.noConfusion
  have hnot : ∀ w, ¬ (kind.isKeyword && wordKind w = .punct .dot) = true := by
    intro w hw
    rw [Bool.and_eq_true, decide_eq_true_eq] at hw
    exact hdot w hw.2
  by_cases hparen : kind = .punct .parenL
  · subst hparen
    rw [after_parenL_behindName, after_parenL_behindName, h]
  unfold Situation.after
  rw [if_neg (hnot word), if_neg (hnot word')]
  -- besides a parenthesis, only a brace and a function look at the token before them
  split
  case h_3 => rw [braceIsBlock_behindName, braceIsBlock_behindName, h]
  case h_5 => exact absurd rfl hparen
  case h_8 => rw [functionIsExpr_behindName, functionIsExpr_behindName, h]
  case h_9 =>
    have hclass : (wordKind word).misleads (.keyword .functionKw) newline =
        (wordKind word').misleads (.keyword .functionKw) newline := h
    rw [functionIsExpr_behindName, functionIsExpr_behindName, hclass]
  case h_11 =>
    rw [bne_iff_ne.mpr (hdot word), bne_iff_ne.mpr (hdot word')]
  all_goals rfl

/-! ## Sources with the name of a property -/

/-- The text of a name or reserved word. -/
def IsWord (word : Bytes) : Prop := ∃ chars, IsName chars ∧ Utf8.encodeChars chars = word

/-- The source in which the word is the name of a property of `x`, and `rest` follows. -/
def dotted (word rest : Bytes) : Bytes := utf8 "x." ++ word ++ rest

/-- The kind of the first token of a text behind the name of a property, and whether a line ends
before it. -/
def firstTaken (rest : Bytes) : Option (Kind × Bool) :=
  let t := readTrivia false (Cursor.ofSource rest)
  match t.outcome with
  | .error _ => none
  | .ok c => match readToken false c with
    | .error _ => none
    | .ok (u, _) => some (u.kind, t.newline)

theorem firstTaken_of_readToken {c d e : Cursor} {rest : Bytes} {t : Token}
    (hc : c.rest = Utf8.glyphs rest) (hd : (readTrivia false c).outcome = .ok d)
    (ht : readToken false d = .ok (t, e)) :
    firstTaken rest = some (t.kind, (readTrivia false c).newline) := by
  have hsame : c.SameText c.offset (Cursor.ofSource rest).offset (Cursor.ofSource rest) :=
    sameText_of_rest hc
  have htrivia : SameTrivia c.offset (Cursor.ofSource rest).offset (readTrivia false c)
      (readTrivia false (Cursor.ofSource rest)) := readTrivia_same hsame
  unfold firstTaken
  dsimp only
  rcases htrivia.outcome.cases_eq with ⟨d₁, d', hd₁, hd', hsame⟩ | ⟨e, _, he, _⟩
  · obtain rfl := Except.ok.inj (hd.symm.trans hd₁)
    rcases (readToken_agree false hsame).cases_eq with
      ⟨r, r', hr, hr', hcontent, -⟩ | ⟨e, _, he, _⟩
    · obtain rfl := Except.ok.inj (ht.symm.trans hr)
      have hkind : t.kind = r'.1.kind := congrArg Prod.fst hcontent
      rw [hd']
      dsimp only
      rw [hr', htrivia.newline, hkind]
    · rw [ht] at he
      cases he
  · rw [hd] at he
    cases he

/-- The tokens behind the name of the property are the same. -/
def SameBehind (ts us : List Token) : Prop := SameContents (ts.drop 3) (us.drop 3)

/-- A name or reserved word behind a point leaves the scanner in the same situation. -/
theorem after_dot (word : Bytes) :
    (behindName false).after (wordKind word) (.punct .dot) word = behindName false := by
  rcases wordKind_cases word with ⟨k, hk⟩ | hk
  · rw [hk]
    rfl
  · rw [hk]
    rfl

/-- A character of one byte ends the name in front of it if it can neither go on a name nor start
an escape. -/
theorem separated_of_ascii {rest : Bytes} (h : ∀ b ∈ rest.head?, b < 0x80
    ∧ isIdentifierPart b.toNat = false ∧ b ≠ 0x5C) : Separated .name rest := by
  unfold Separated
  dsimp only
  cases rest with
  | nil =>
    rw [Utf8.glyphs_nil]
    exact ⟨fun g hg => (by cases hg), fun g hg => (by cases hg)⟩
  | cons b rest =>
    obtain ⟨hascii, hpart, hslash⟩ := h b rfl
    have hchar : (Char.ofNat b.toNat).toNat = b.toNat := by
      have hlt : b.toNat < 0x80 := UInt8.lt_iff_toNat_lt.mp hascii
      exact Utf8.toNat_charOfNat (Or.inl (by omega))
    rw [Utf8.glyphs_ascii_cons hascii]
    refine ⟨stops_cons ?_, stops_cons ?_⟩
    · rw [partOfName, hchar]
      exact hpart
    · refine beq_eq_false_iff_ne.mpr fun he => hslash (UInt8.toNat_inj.mp ?_)
      exact hchar.symm.trans (congrArg Char.toNat he)

theorem dotted_eq (word rest : Bytes) : dotted word rest =
    Utf8.encodeChars ['x'] ++ (utf8 (Punctuator.label .dot) ++ (word ++ rest)) := by
  rw [dotted, List.append_assoc]
  rfl

theorem startsPlain_dotted (word rest : Bytes) :
    StartsPlain (Cursor.ofSource (dotted word rest)) := by
  have hglyphs : (Cursor.ofSource (dotted word rest)).rest = Utf8.glyphs (dotted word rest) := rfl
  rw [dotted_eq, Utf8.glyphs_encodeChars] at hglyphs
  exact startsPlain_of_peek? (peek?_of_cons hglyphs) (by decide) (by decide)

theorem isName_singleton {ch : Char} (h : isIdentifierStart ch.toNat = true) : IsName [ch] :=
  ⟨ch, [], rfl, h, fun x hx => by cases hx⟩

theorem readsAs_variable (rest : Bytes) : ReadsAs true .name (utf8 "x") (Utf8.encodeChars ['x'])
    (utf8 (Punctuator.label .dot) ++ rest) := by
  have hglyphs : Utf8.glyphs (utf8 (Punctuator.label .dot) ++ rest) =
      charGlyphs ['.'] ++ Utf8.glyphs rest := glyphs_utf8_append (by decide) rest
  refine readsAs_word (isName_singleton (by decide)) ?_ ?_
  · rw [hglyphs]
    exact stops_cons (show partOfName '.' = false by decide)
  · rw [hglyphs]
    exact stops_cons rfl

theorem readsAs_point (h : IsWord word) (rest : Bytes) :
    ReadsAs false (.punct .dot) [] (utf8 (Punctuator.label .dot)) (word ++ rest) := by
  obtain ⟨chars, ⟨ch, cs, rfl, hch, -⟩, rfl⟩ := h
  refine readsAs_punct (by decide) (fun _ => rfl) ?_
  rw [Utf8.glyphs_encodeChars]
  exact stops_cons (show Punctuator.extendedBy .dot ch = false from
    extendedBy_of_isIdentifierStart hch)

theorem readsAs_isWord {rest : Bytes} (h : IsWord word) (hrest : Separated .name rest) :
    ReadsAs false (wordKind word) word word rest := by
  obtain ⟨chars, hchars, rfl⟩ := h
  exact readsAs_word hchars hrest.1 hrest.2

/-- The name of a property is the third token, and only its kind can tell it from another when the
scan goes on. -/
theorem tokenize_dotted {rest : Bytes} (h : IsWord word) (hrest : Separated .name rest) {fuel : Nat}
    (hfuel : 2 * (dotted word rest).length + 1 ≤ fuel + 3) :
    ∃ ts d, ts.length = 3 ∧ d.rest = Utf8.glyphs rest
      ∧ tokenize (dotted word rest) =
        (collect fuel ⟨d, wordKind word, behindName false, false, none⟩).map (ts ++ ·) := by
  have hbound := potential_ofSource_le (dotted word rest)
  have hcollect : tokenize (dotted word rest) = collect (fuel + 3)
      ⟨Cursor.ofSource (dotted word rest), .eof, {}, false, none⟩ := by
    rw [← collect_ofSource (startsPlain_dotted word rest)]
    exact collect_congr (sound_ofSource _) hbound (Nat.le_trans hbound hfuel)
  -- the variable, the point and the name are three steps of the run
  obtain ⟨t₁, d₁, -, hd₁, h₁⟩ := collect_of_readsAs (s := {})
    (c := Cursor.ofSource (dotted word rest)) (by decide) Kind.noConfusion
    (readsAs_variable (word ++ rest)) (congrArg Utf8.glyphs (dotted_eq word rest)) .eof (fuel + 2)
  obtain ⟨t₂, d₂, -, hd₂, h₂⟩ := collect_of_readsAs (s := behindName false) (by decide)
    Kind.noConfusion (readsAs_point h rest) hd₁ .name (fuel + 1)
  obtain ⟨t₃, d₃, -, hd₃, h₃⟩ := collect_of_readsAs (s := behindName false) (by decide)
    (wordKind_ne_eof word) (readsAs_isWord h hrest) hd₂ (.punct .dot) fuel
  have hfirst : ({ ({} : Situation) with newlineBefore := false } : Situation).after .name .eof
      (utf8 "x") = behindName false := by decide
  have hsecond : ({ behindName false with newlineBefore := false } : Situation).after (.punct .dot)
      .name [] = behindName false := rfl
  have hthird : ({ behindName false with newlineBefore := false } : Situation).after (wordKind word)
      (.punct .dot) word = behindName false := after_dot word
  rw [hfirst] at h₁
  rw [hsecond] at h₂
  rw [hthird] at h₃
  refine ⟨[t₁, t₂, t₃], d₃, rfl, hd₃, ?_⟩
  rw [hcollect, h₁, h₂, h₃]
  cases collect fuel ⟨d₃, wordKind word, behindName false, false, none⟩ with
  | error e => rfl
  | ok ts => rfl

/-- **The names of properties are read alike if they mislead alike**, with all that follows. -/
theorem tokenize_dotted_agree {rest : Bytes} (h : IsWord word) (h' : IsWord word')
    (hrest : Separated .name rest)
    (hsame : ∀ kind newline, firstTaken rest = some (kind, newline) →
      (wordKind word).misleads kind newline = (wordKind word').misleads kind newline) :
    Agree SameFault SameBehind (tokenize (dotted word rest)) (tokenize (dotted word' rest)) := by
  have hfuel : ∃ fuel, 2 * (dotted word rest).length + 1 ≤ fuel + 1 + 3
      ∧ 2 * (dotted word' rest).length + 1 ≤ fuel + 1 + 3 :=
    ⟨2 * (dotted word rest).length + 2 * (dotted word' rest).length, by omega, by omega⟩
  obtain ⟨fuel, hle, hle'⟩ := hfuel
  obtain ⟨ts, d, hts, hd, htokens⟩ := tokenize_dotted h hrest hle
  obtain ⟨us, e, hus, he, htokens'⟩ := tokenize_dotted h' hrest hle'
  have hbehind : Alongside d.offset e.offset ⟨d, wordKind word, behindName false, false, none⟩
      ⟨e, wordKind word', behindName false, false, none⟩ :=
    ⟨sameText_of_rest (hd.trans he.symm), rfl, ⟨rfl, rfl⟩, ⟨rfl, rfl⟩⟩
  -- the next token is the only one that is taken by the kind of the name
  have hstep := next_ordinary_same hbehind (show Context.block ≠ .template by decide)
    fun c t r hc ht =>
      after_behindName_congr (hsame _ _ (firstTaken_of_readToken hd hc ht)) t.value
  have hcollect := collect_succ_agree hstep fun t ht =>
    collect_agree fuel (hstep.scanner t ht).1 (hstep.scanner t ht).2
  rw [htokens, htokens']
  refine hcollect.map fun vs ws hvs => ?_
  unfold SameBehind
  rw [List.drop_left' hts, List.drop_left' hus]
  exact hvs

/-! ## Where a reserved word misleads -/

theorem isWord_word (k : Keyword) : IsWord (utf8 k.word) := by
  have hascii : k.word.toList.all (·.toNat < 0x80) = true := by cases k <;> decide
  have hall : k.word.toList.all (isIdentifierStart ·.toNat) = true := by cases k <;> decide
  have hne : k.word.toList ≠ [] := by cases k <;> decide
  refine ⟨k.word.toList, ?_, (utf8_eq_encodeChars hascii).symm⟩
  obtain ⟨ch, cs, hcons⟩ := List.exists_cons_of_ne_nil hne
  rw [hcons, List.all_cons, Bool.and_eq_true, List.all_eq_true] at hall
  exact ⟨ch, cs, hcons, hall.1, fun x hx => isIdentifierPart_of_isIdentifierStart (hall.2 x hx)⟩

theorem wordKind_word (k : Keyword) : wordKind (utf8 k.word) = .keyword k := by
  cases k <;> decide

theorem misleads_word (k : Keyword) (kind : Kind) (newline : Bool) :
    (wordKind (utf8 k.word)).misleads kind newline = k.misleads kind newline := by
  rw [wordKind_word]
  rfl

theorem misleads_name {word : Bytes} (h : Keyword.ofWord? word = none) (kind : Kind)
    (newline : Bool) : (wordKind word).misleads kind newline = false := by
  rw [wordKind, h]
  rfl

/-- The tokens that a reserved word in front of them can mislead about. -/
def misread : List Kind :=
  [.punct .parenL, .punct .braceL, .keyword .functionKw, .keyword .classKw]

/-- A text that starts with such a token and shows how it was taken: what follows its brackets is
a division or the start of a regular expression. -/
def probe (kind : Kind) (newline : Bool) : Bytes :=
  (if newline then [0x0A] else [0x20]) ++
    match kind with
    | .punct .parenL => utf8 "(a)/b"
    | .punct .braceL => utf8 "\x7b\x7d/b"
    | .keyword .functionKw => utf8 "function()\x7b\x7d/b"
    | _ => utf8 "class\x7b\x7d/b"

/-- A reserved word that misleads about the token. -/
def misleading (kind : Kind) : Keyword :=
  match kind with
  | .punct .parenL => .ifKw
  | .punct .braceL => .thisKw
  | _ => .newKw

theorem mem_misread {k : Keyword} {kind : Kind} {newline : Bool}
    (h : k.misleads kind newline = true) : kind ∈ misread := by
  unfold Keyword.misleads at h
  split at h
  case h_5 => cases h
  all_goals decide

theorem misleads_misleading {kind : Kind} (h : kind ∈ misread) (newline : Bool) :
    (misleading kind).misleads kind newline = true := by
  revert kind newline
  decide

theorem separated_probe (kind : Kind) (newline : Bool) : Separated .name (probe kind newline) := by
  refine separated_of_ascii fun b hb => ?_
  cases newline with
  | true =>
    obtain rfl := Option.some.inj hb
    decide
  | false =>
    obtain rfl := Option.some.inj hb
    decide

theorem firstTaken_probe {kind : Kind} (h : kind ∈ misread) (newline : Bool) :
    firstTaken (probe kind newline) = some (kind, newline) := by
  revert kind newline
  decide +kernel

theorem isWord_y : IsWord (utf8 "y") := ⟨['y'], isName_singleton (by decide), rfl⟩

theorem isOk_probe {kind : Kind} (h : kind ∈ misread) (newline : Bool) :
    (tokenize (dotted (utf8 (misleading kind).word) (probe kind newline))).isOk ≠
      (tokenize (dotted (utf8 "y") (probe kind newline))).isOk := by
  revert kind newline
  decide +kernel

/-- Words that mislead about the token alike are read alike in front of it. -/
theorem tokenize_probe_agree {kind : Kind} (h : IsWord word) (h' : IsWord word')
    (hkind : kind ∈ misread) {newline : Bool}
    (hsame : (wordKind word).misleads kind newline = (wordKind word').misleads kind newline) :
    Agree SameFault SameBehind (tokenize (dotted word (probe kind newline)))
      (tokenize (dotted word' (probe kind newline))) := by
  refine tokenize_dotted_agree h h' (separated_probe kind newline) fun kind' newline' hfirst => ?_
  rw [firstTaken_probe hkind] at hfirst
  obtain ⟨rfl, rfl⟩ := Prod.mk.inj (Option.some.inj hfirst)
  exact hsame

/-- **A reserved word is a name of a property like any other until it misleads.** The source is
read like one with a plain name there, with the same fault or the same tokens behind it, if the
word does not mislead about the first token of what follows; and where it misleads, some source
shows it whatever the plain name is. -/
theorem tokenize_propertyName (k : Keyword) :
    (∀ name rest, IsWord name → Keyword.ofWord? name = none → Separated .name rest →
      (∀ kind newline, firstTaken rest = some (kind, newline) →
        k.misleads kind newline = false) →
      Agree SameFault SameBehind (tokenize (dotted (utf8 k.word) rest))
        (tokenize (dotted name rest)))
    ∧ ∀ kind newline, k.misleads kind newline = true →
      ∃ rest, Separated .name rest ∧ firstTaken rest = some (kind, newline)
        ∧ ∀ name, IsWord name → Keyword.ofWord? name = none →
          ¬ Agree SameFault SameBehind (tokenize (dotted (utf8 k.word) rest))
            (tokenize (dotted name rest)) := by
  constructor
  · intro name rest hword hname hrest hagree
    refine tokenize_dotted_agree (isWord_word k) hword hrest fun kind newline hfirst => ?_
    rw [misleads_name hname, misleads_word]
    exact hagree kind newline hfirst
  · intro kind newline hk
    have hkind := mem_misread hk
    refine ⟨probe kind newline, separated_probe kind newline, firstTaken_probe hkind newline, ?_⟩
    intro name hword hname hagree
    -- words that mislead about the token are all read alike there, and so are plain names
    have hlike : Agree SameFault SameBehind (tokenize (dotted (utf8 k.word) (probe kind newline)))
        (tokenize (dotted (utf8 (misleading kind).word) (probe kind newline))) := by
      refine tokenize_probe_agree (isWord_word k) (isWord_word _) hkind ?_
      rw [misleads_word, misleads_word, hk, misleads_misleading hkind]
    have hplain : Agree SameFault SameBehind (tokenize (dotted name (probe kind newline)))
        (tokenize (dotted (utf8 "y") (probe kind newline))) := by
      refine tokenize_probe_agree hword isWord_y hkind ?_
      rw [misleads_name hname, misleads_name (by decide)]
    refine isOk_probe hkind newline ?_
    rw [← hlike.isOk_eq, hagree.isOk_eq, hplain.isOk_eq]

/-- An `if` in front of a slash is a name like `y`, in front of a parenthesis it is not. -/
theorem tokenize_propertyName_if :
    (IsWord (utf8 "y") ∧ Keyword.ofWord? (utf8 "y") = none ∧ Separated .name (utf8 "/b")
      ∧ firstTaken (utf8 "/b") = some (.punct .slash, false)
      ∧ Keyword.misleads .ifKw (.punct .slash) false = false
      ∧ Agree SameFault SameBehind (tokenize (utf8 "x.if/b")) (tokenize (utf8 "x.y/b")))
    ∧ Keyword.misleads .ifKw (.punct .parenL) false = true
      ∧ ∃ rest, Separated .name rest ∧ firstTaken rest = some (.punct .parenL, false)
        ∧ ¬ Agree SameFault SameBehind (tokenize (dotted (utf8 "if") rest))
          (tokenize (dotted (utf8 "y") rest)) := by
  have hname : Keyword.ofWord? (utf8 "y") = none := by decide
  have hrest : Separated .name (utf8 "/b") := by
    refine separated_of_ascii fun b hb => ?_
    obtain rfl := Option.some.inj hb
    decide
  have hfirst : firstTaken (utf8 "/b") = some (.punct .slash, false) := by decide +kernel
  obtain ⟨hagree, hmisread⟩ := tokenize_propertyName .ifKw
  obtain ⟨rest, hsep, htaken, hne⟩ := hmisread (.punct .parenL) false rfl
  refine ⟨⟨isWord_y, hname, hrest, hfirst, rfl, ?_⟩, rfl, rest, hsep, htaken,
    hne (utf8 "y") isWord_y hname⟩
  refine hagree (utf8 "y") (utf8 "/b") isWord_y hname hrest fun kind newline htaken => ?_
  obtain ⟨rfl, rfl⟩ := Prod.mk.inj (Option.some.inj (hfirst.symm.trans htaken))
  rfl

/-- The arguments of a method `if` are taken for a condition, and the division behind them for a
regular expression. -/
theorem tokenize_propertyName_ne_condition :
    tokenize (utf8 "x.if(a)/b") = .error ⟨⟨1, 7, 7⟩, .unterminatedRegexp⟩
      ∧ (tokenize (utf8 "x.id(a)/b")).isOk = true
      ∧ ¬ Agree SameFault SameBehind (tokenize (utf8 "x.if(a)/b"))
        (tokenize (utf8 "x.id(a)/b")) := by
  have herror : tokenize (utf8 "x.if(a)/b") = .error ⟨⟨1, 7, 7⟩, .unterminatedRegexp⟩ := by
    decide +kernel
  have hok : (tokenize (utf8 "x.id(a)/b")).isOk = true := by decide +kernel
  refine ⟨herror, hok, fun h => ?_⟩
  have hisOk := h.isOk_eq
  rw [herror, hok] at hisOk
  cases hisOk

end Scanner

end ScriptTidy
