import Mathlib.Data.List.Infix
import ScriptTidy.Markup.InlineScript
import ScriptTidy.Proofs.Layout.Fidelity
import ScriptTidy.Proofs.Scanner.Verbatim

/-!
# The end of a script element in formatted scripts

The text of a script element ends at the first `</script`, in letters of either case. A script
that is read from a document does not hold these bytes, and this file tells when the formatted
script does. All that is written is followed along the tokens. White space, names and most
punctuators have no `<` (`holdsScriptEnd_append_of_not_mem`), and behind a text that may end with
`<` stands a byte that does not go on with the end of a script
(`holdsScriptEnd_append_of_breaksOff`), so what is written for each token can be looked at on its
own. Numbers, regular expressions, templates and comments are pieces of the source. Only strings
are left: they are decoded, and neither `<` nor `/` is escaped again.

* `holdsScriptEnd_escape` : writing a string neither makes nor hides an end.
* `breaksOff_next` : what stands behind a token does not complete an end.
* `holdsScriptEnd_emissions` : the run lemma.
* `holdsScriptEnd_format` : a formatted script holds an end exactly if one of its strings does.
-/

namespace ScriptTidy

/-- The text holds what ends the text of a script element. -/
def HoldsScriptEnd (text : Bytes) : Prop := utf8 "</script" <:+: Bytes.toLowerAscii text

instance (text : Bytes) : Decidable (HoldsScriptEnd text) :=
  inferInstanceAs (Decidable (_ <:+: _))

/-- What the text starts with does not go on with an end of a script that started before it. -/
def BreaksOff (text : Bytes) : Prop :=
  text.head?.all (fun b =>
    (utf8 "</script").tail.all fun x => Bytes.toLowerAscii [b] != [x]) = true

instance (text : Bytes) : Decidable (BreaksOff text) := inferInstanceAs (Decidable (_ = true))

theorem breaksOff_iff {text : Bytes} : BreaksOff text ↔
    ∀ b ∈ text.head?, ∀ x ∈ (utf8 "</script").tail, Bytes.toLowerAscii [b] ≠ [x] := by
  cases text <;> simp [BreaksOff]

/-! ## Texts side by side -/

theorem scriptEnd_eq : utf8 "</script" = 0x3C :: (utf8 "</script").tail := by decide

theorem toLowerAscii_append (x y : Bytes) :
    Bytes.toLowerAscii (x ++ y) = Bytes.toLowerAscii x ++ Bytes.toLowerAscii y := List.map_append

/-- Only `<` itself is read as `<`. -/
theorem mem_of_mem_toLowerAscii {x : Bytes} (h : 0x3C ∈ Bytes.toLowerAscii x) : 0x3C ∈ x := by
  obtain ⟨b, hb, he⟩ := List.mem_map.mp h
  split at he
  next hupper =>
    simp only [Bool.and_eq_true, decide_eq_true_eq, UInt8.le_iff_toNat_le] at hupper
    have hsum := congrArg UInt8.toNat he
    rw [UInt8.toNat_add] at hsum
    simp at hsum hupper
    omega
  next => rwa [he] at hb

theorem HoldsScriptEnd.mono {x y : Bytes} (h : HoldsScriptEnd x) (hxy : x <:+: y) :
    HoldsScriptEnd y := h.trans (hxy.map _)

theorem not_holdsScriptEnd_of_not_mem {x : Bytes} (h : 0x3C ∉ x) : ¬ HoldsScriptEnd x := by
  intro hx
  refine h (mem_of_mem_toLowerAscii (hx.subset ?_))
  rw [scriptEnd_eq]
  exact List.mem_cons_self

/-- An end within two texts lies in one of them, or starts in the first and goes on in the
other. -/
theorem holdsScriptEnd_append {x y : Bytes}
    (h : ∀ l₁ l₂, utf8 "</script" = l₁ ++ l₂ → l₁ ≠ [] → l₂ ≠ [] →
      l₁ <:+ Bytes.toLowerAscii x → ¬ l₂ <+: Bytes.toLowerAscii y) :
    HoldsScriptEnd (x ++ y) ↔ HoldsScriptEnd x ∨ HoldsScriptEnd y := by
  unfold HoldsScriptEnd
  rw [toLowerAscii_append, List.infix_append_iff]
  constructor
  · rintro (hx | hy | ⟨l₁, l₂, he, h₁, h₂⟩)
    · exact Or.inl hx
    · exact Or.inr hy
    · by_cases hnil₁ : l₁ = []
      · rw [hnil₁, List.nil_append] at he
        exact Or.inr (he ▸ h₂.isInfix)
      · by_cases hnil₂ : l₂ = []
        · rw [hnil₂, List.append_nil] at he
          exact Or.inl (he ▸ h₁.isInfix)
        · exact absurd h₂ (h l₁ l₂ he hnil₁ hnil₂ h₁)
  · rintro (hx | hy)
    · exact Or.inl hx
    · exact Or.inr (Or.inl hy)

theorem holdsScriptEnd_append_of_not_mem {x : Bytes} (h : 0x3C ∉ x) (y : Bytes) :
    HoldsScriptEnd (x ++ y) ↔ HoldsScriptEnd y := by
  rw [holdsScriptEnd_append, or_iff_right (not_holdsScriptEnd_of_not_mem h)]
  intro l₁ l₂ he hne _ hsuffix
  obtain ⟨b, l₁, rfl⟩ := List.exists_cons_of_ne_nil hne
  rw [scriptEnd_eq, List.cons_append] at he
  have hb : b = 0x3C := (List.cons.inj he).1.symm
  exact absurd (mem_of_mem_toLowerAscii (hb ▸ hsuffix.subset List.mem_cons_self)) h

theorem holdsScriptEnd_append_of_breaksOff (x : Bytes) {y : Bytes} (h : BreaksOff y) :
    HoldsScriptEnd (x ++ y) ↔ HoldsScriptEnd x ∨ HoldsScriptEnd y := by
  refine holdsScriptEnd_append fun l₁ l₂ he hne₁ hne₂ _ hprefix => ?_
  obtain ⟨a, l₁, rfl⟩ := List.exists_cons_of_ne_nil hne₁
  obtain ⟨b, l₂, rfl⟩ := List.exists_cons_of_ne_nil hne₂
  cases y with
  | nil => exact absurd (List.prefix_nil.mp hprefix) hne₂
  | cons c y =>
    have hmem : b ∈ (utf8 "</script").tail := by
      rw [he]
      simp
    have hbc : b = _ := (List.cons_prefix_cons.mp hprefix).1
    exact breaksOff_iff.mp h c rfl b hmem (by rw [hbc]; rfl)

theorem breaksOff_append {x : Bytes} (hne : x ≠ []) (h : BreaksOff x) (y : Bytes) :
    BreaksOff (x ++ y) := by
  obtain ⟨b, r, rfl⟩ := List.exists_cons_of_ne_nil hne
  exact h

/-! ## Strings -/

/-- The text is not empty and has no part in an end of a script. -/
def IsInert (x : Bytes) : Prop := x ≠ [] ∧ 0x3C ∉ x ∧ BreaksOff x

instance (x : Bytes) : Decidable (IsInert x) := inferInstanceAs (Decidable (_ ∧ _ ∧ _))

/-- The two texts are the same byte, or both have no part in an end. -/
def EndsAlike (x y : Bytes) : Prop := (∃ b, x = [b] ∧ y = [b]) ∨ IsInert x ∧ IsInert y

theorem IsInert.not_prefix {x : Bytes} (h : IsInert x) {c : UInt8} {q : Bytes}
    (hc : c ∈ utf8 "</script") (r : Bytes) : ¬ c :: q <+: Bytes.toLowerAscii (x ++ r) := by
  obtain ⟨hne, hless, hbreaks⟩ := h
  obtain ⟨b, s, rfl⟩ := List.exists_cons_of_ne_nil hne
  intro hprefix
  have hb : Bytes.toLowerAscii [b] = [c] :=
    congrArg (fun x => [x]) (List.cons_prefix_cons.mp hprefix).1.symm
  rw [scriptEnd_eq] at hc
  rcases List.mem_cons.mp hc with rfl | hc
  · have hmem : 0x3C ∈ [b] := mem_of_mem_toLowerAscii (by rw [hb]; exact List.mem_cons_self)
    rw [List.mem_singleton] at hmem
    exact hless (hmem ▸ List.mem_cons_self)
  · exact breaksOff_iff.mp hbreaks b rfl c hc hb

section FlatMap

variable {f g : Nat → Bytes} {ns : List Nat}

theorem prefix_flatMap (h : ∀ n ∈ ns, EndsAlike (f n) (g n)) {q : Bytes}
    (hq : ∀ b ∈ q, b ∈ utf8 "</script") :
    q <+: Bytes.toLowerAscii (ns.flatMap f) ↔ q <+: Bytes.toLowerAscii (ns.flatMap g) := by
  induction ns generalizing q with
  | nil => exact Iff.rfl
  | cons n ns ih =>
    cases q with
    | nil => exact iff_of_true List.nil_prefix List.nil_prefix
    | cons c q =>
      have hrest := ih (fun m hm => h m (List.mem_cons_of_mem n hm))
        fun b hb => hq b (List.mem_cons_of_mem c hb)
      rw [List.flatMap_cons, List.flatMap_cons]
      rcases h n List.mem_cons_self with ⟨b, hf, hg⟩ | ⟨hf, hg⟩
      · rw [hf, hg, toLowerAscii_append, toLowerAscii_append]
        refine List.cons_prefix_cons.trans (Iff.trans ?_ List.cons_prefix_cons.symm)
        exact and_congr_right fun _ => hrest
      · have hc := hq c List.mem_cons_self
        exact iff_of_false (hf.not_prefix hc _) (hg.not_prefix hc _)

theorem holdsScriptEnd_flatMap (h : ∀ n ∈ ns, EndsAlike (f n) (g n)) :
    HoldsScriptEnd (ns.flatMap f) ↔ HoldsScriptEnd (ns.flatMap g) := by
  induction ns with
  | nil => exact Iff.rfl
  | cons n ns ih =>
    have hrest := ih fun m hm => h m (List.mem_cons_of_mem n hm)
    rcases h n List.mem_cons_self with ⟨b, hf, hg⟩ | ⟨hf, hg⟩
    · -- an end starts with the byte, or it lies behind
      have hstart := prefix_flatMap h (q := utf8 "</script") fun b hb => hb
      rw [List.flatMap_cons, List.flatMap_cons, hf, hg] at hstart ⊢
      exact List.infix_cons_iff.trans ((or_congr hstart hrest).trans List.infix_cons_iff.symm)
    · rw [List.flatMap_cons, List.flatMap_cons, holdsScriptEnd_append_of_not_mem hf.2.1,
        holdsScriptEnd_append_of_not_mem hg.2.1]
      exact hrest

end FlatMap

theorem isInert_encode {n : Nat} (hlo : 0x80 ≤ n) (hhi : n < 0x110000) :
    IsInert (Utf8.encode n) := by
  have hbytes := Utf8.le_of_mem_encode hlo hhi
  have hascii : (utf8 "</script").tail.all (fun x => x.toNat < 0x80) = true := by decide
  refine ⟨Utf8.encode_ne_nil n, fun hmem => ?_, breaksOff_iff.mpr fun b hb x hx he => ?_⟩
  · exact absurd (hbytes _ hmem) (by decide)
  · have hle := hbytes b (List.mem_of_mem_head? hb)
    have hlt := of_decide_eq_true (List.all_eq_true.mp hascii x hx)
    have hkept : Bytes.toLowerAscii [b] = [b] := by
      have hupper : ¬ (b ≤ 0x5A) := by
        rw [UInt8.le_iff_toNat_le, show (0x5A : UInt8).toNat = 0x5A from rfl]
        omega
      simp [Bytes.toLowerAscii, hupper]
    rw [hkept] at he
    cases he
    omega

namespace StringLiteral

theorem not_mem_hexPadded {n : Nat} (h : n < 0x10000) :
    (0x3C : UInt8) ∉ hexPadded upperHexDigit 4 n := by
  have hdigit : ∀ x ∈ List.range 16, upperHexDigit x ≠ 0x3C := by decide
  obtain ⟨digits, _, hdigits, hhex, _⟩ := Scanner.hexPadded_four h
  rw [hhex]
  intro hmem
  obtain ⟨x, hx, he⟩ := List.mem_map.mp hmem
  exact hdigit x (List.mem_range.mpr (hdigits x hx)) he

theorem endsAlike_escapePoint {n : Nat} (h : n < 0x110000) :
    EndsAlike (escapePoint n) (Utf8.encode n) := by
  unfold escapePoint
  by_cases hs : isSurrogate n
  · rw [if_pos hs]
    obtain ⟨hlo, hhi⟩ := hs
    refine Or.inr ⟨⟨by simp [utf8], ?_, ?_⟩, isInert_encode (by omega) h⟩
    · rw [List.mem_append, not_or]
      exact ⟨by decide, not_mem_hexPadded (by omega)⟩
    · exact show BreaksOff [0x5C] by decide
  · rw [if_neg hs]
    have hn := Utf8.toNat_charOfNat (isValidChar_of_not_isSurrogate h hs)
    cases he : escape? (Char.ofNat n) with
    | none =>
      rw [Option.getD_none]
      by_cases hascii : n < 0x80
      · exact Or.inl ⟨n.toUInt8, if_pos hascii, if_pos hascii⟩
      · have hinert := isInert_encode (Nat.le_of_not_lt hascii) h
        exact Or.inr ⟨hinert, hinert⟩
    | some bytes =>
      -- one case for each escape
      rw [Option.getD_some]
      unfold escape? at he
      rw [hn] at he
      right
      split at he
      all_goals first | (cases he; decide) | cases he

/-- **Writing a string neither makes nor hides an end of a script.** -/
theorem holdsScriptEnd_escape {ns : List Nat} (h : ∀ n ∈ ns, n < 0x110000) :
    HoldsScriptEnd (escape (ns.flatMap Utf8.encode)) ↔ HoldsScriptEnd (ns.flatMap Utf8.encode) := by
  rw [escape_flatMap h]
  exact holdsScriptEnd_flatMap fun n hn => endsAlike_escapePoint (h n hn)

end StringLiteral

open Scanner

/-! ## Tokens -/

/-- The second token is a word on the line of a regular expression. Nothing is written between the
two, so that the word comes out as its flags. -/
def Token.TakesForFlags (a b : Token) : Prop :=
  a.kind = .regexp ∧ b.kind.looksLikeFlags = true ∧ a.stop.line = b.start.line

instance (a b : Token) : Decidable (a.TakesForFlags b) := inferInstanceAs (Decidable (_ ∧ _ ∧ _))

theorem not_mem_encodeChars {chars : List Char} (h : IsName chars) :
    (0x3C : UInt8) ∉ Utf8.encodeChars chars := by
  intro hmem
  obtain ⟨ch, hch, hb⟩ := List.mem_flatMap.mp hmem
  have hpart : isIdentifierPart ch.toNat = true := by
    obtain ⟨first, cs, rfl, hfirst, hcs⟩ := h
    rcases List.mem_cons.mp hch with rfl | hch
    · exact isIdentifierPart_of_isIdentifierStart hfirst
    · exact hcs ch hch
  by_cases hascii : ch.toNat < 0x80
  · rw [Utf8.encodeChar, Utf8.encode, if_pos hascii, List.mem_singleton] at hb
    have hless : ch.toNat = 0x3C := by
      have hnat := congrArg UInt8.toNat hb
      rw [Utf8.toNat_toUInt8 (by omega)] at hnat
      exact hnat.symm
    rw [hless] at hpart
    exact absurd hpart (by decide)
  · have hlt : ch.toNat < 0x110000 := by
      rcases ch.valid with h | h
      · exact Nat.lt_trans h (by decide)
      · exact h.2
    exact absurd (Utf8.le_of_mem_encode (Nat.le_of_not_lt hascii) hlt _ hb) (by decide)

/-- The kinds of tokens whose texts may end with the start of an end. All such punctuators are
operators. -/
def Kind.mayStartEnd : Kind → Bool
  | .num | .regexp => true
  | .punct p => Rules.wantsSpaceBehind (.punct p)
  | _ => false

/-- What is written for a token, and what stands behind it. -/
theorem holdsScriptEnd_text_append {exprAllowed : Bool} {t : Token} {tail : Bytes}
    (ht : Lexeme exprAllowed t.kind t.value)
    (hbody : t.kind.isVerbatim = true → ¬ HoldsScriptEnd t.value)
    (htail : t.kind.mayStartEnd = true → BreaksOff tail) :
    HoldsScriptEnd (t.text ++ tail) ↔
      t.kind = .string ∧ HoldsScriptEnd t.value ∨ HoldsScriptEnd tail := by
  -- a text holds no end without an angle bracket, nor as a piece of the source
  have hplain : t.kind ≠ .string → 0x3C ∉ t.text → (HoldsScriptEnd (t.text ++ tail) ↔
      t.kind = .string ∧ HoldsScriptEnd t.value ∨ HoldsScriptEnd tail) := by
    intro hkind hless
    rw [holdsScriptEnd_append_of_not_mem hless]
    exact (or_iff_right fun h => hkind h.1).symm
  have hraw : t.kind ≠ .string → t.text = t.value → t.kind.isVerbatim = true →
      t.kind.mayStartEnd = true → (HoldsScriptEnd (t.text ++ tail) ↔
        t.kind = .string ∧ HoldsScriptEnd t.value ∨ HoldsScriptEnd tail) := by
    intro hkind htext hverbatim hstart
    rw [htext, holdsScriptEnd_append_of_breaksOff _ (htail hstart), or_iff_right (hbody hverbatim)]
    exact (or_iff_right fun h => hkind h.1).symm
  obtain ⟨kind, value, first, last⟩ := t
  dsimp only at *
  cases ht with
  | @word chars hchars =>
    have hne := encodeChars_ne_nil hchars
    have hless := not_mem_encodeChars hchars
    rcases wordKind_cases (Utf8.encodeChars chars) with ⟨k, hk⟩ | hk
    · rw [hk] at hplain ⊢
      refine hplain Kind.noConfusion ?_
      show 0x3C ∉ if (Utf8.encodeChars chars).isEmpty then _ else _
      rwa [if_neg (by simpa using hne)]
    · rw [hk] at hplain ⊢
      exact hplain Kind.noConfusion hless
  | privateName hchars =>
    refine hplain Kind.noConfusion fun hmem => ?_
    rcases List.mem_append.mp hmem with hmem | hmem
    · exact absurd hmem (by decide)
    · exact not_mem_encodeChars hchars hmem
  | number => exact hraw Kind.noConfusion rfl rfl rfl
  | regexp => exact hraw Kind.noConfusion rfl rfl rfl
  -- quotes keep the value apart from what stands around it
  | @string ns hns =>
    show HoldsScriptEnd ([0x27] ++ StringLiteral.escape _ ++ [0x27] ++ tail) ↔ _
    rw [List.append_assoc, List.append_assoc, holdsScriptEnd_append_of_not_mem (by decide),
      holdsScriptEnd_append_of_breaksOff _ (breaksOff_append (by decide) (by decide) tail),
      holdsScriptEnd_append_of_not_mem (by decide), StringLiteral.holdsScriptEnd_escape hns]
    simp
  | @punct p hp _ =>
    cases hwants : Rules.wantsSpaceBehind (.punct p) with
    | true =>
      have hless : ¬ HoldsScriptEnd (utf8 p.label) := by cases p <;> decide
      show HoldsScriptEnd (utf8 p.label ++ tail) ↔ _
      rw [holdsScriptEnd_append_of_breaksOff _ (htail hwants), or_iff_right hless]
      exact (or_iff_right fun h => Kind.noConfusion h.1).symm
    | false =>
      refine hplain Kind.noConfusion ?_
      show 0x3C ∉ utf8 p.label
      revert hwants
      cases p <;> decide

namespace Layout

variable {indent : Bytes} {s : LayoutState} {l t : Token} {next : Option Token} {pending : Bytes}

/-! ## White space and comments -/

theorem not_mem_flatten (hindent : 0x3C ∉ indent) {gap : List Bytes}
    (h : ∀ piece ∈ gap, IsPiece indent piece) : 0x3C ∉ gap.flatten := by
  intro hmem
  obtain ⟨piece, hpiece, hb⟩ := List.mem_flatten.mp hmem
  rcases h piece hpiece with rfl | rfl | ⟨level, rfl⟩
  · exact absurd hb (by decide)
  · exact absurd hb (by decide)
  · exact hindent (mem_indentation hb)

theorem Behind.not_mem_pending {last : Option Token} (h : Behind indent last next s pending) :
    0x3C ∉ pending := by
  rcases h.pending_cases with rfl | rfl | rfl
  all_goals decide

theorem holdsScriptEnd_joinWith (lines : List Bytes) :
    HoldsScriptEnd (Bytes.joinWith [0x0A] lines) ↔ ∃ line ∈ lines, HoldsScriptEnd line := by
  unfold Bytes.joinWith
  induction lines with
  | nil => exact iff_of_false (not_holdsScriptEnd_of_not_mem (by simp)) (by simp)
  | cons line lines ih =>
    cases lines with
    | nil => simp
    | cons second lines =>
      rw [List.intercalate_cons_cons, List.append_assoc,
        holdsScriptEnd_append_of_breaksOff _ (breaksOff_append (by decide) (by decide) _),
        holdsScriptEnd_append_of_not_mem (by decide), ih]
      simp

/-- Moving the lines of a comment makes no end. -/
theorem not_holdsScriptEnd_reindent {text indentation : Bytes} {column : Int}
    (hindentation : 0x3C ∉ indentation) (h : ¬ HoldsScriptEnd text) :
    ¬ HoldsScriptEnd (reindent text column indentation) := by
  obtain ⟨first, rest, hsplit, hfirst, hrest, _⟩ := splitOn_eq_cons 0x0A text
  unfold reindent
  rw [hsplit]
  dsimp only
  rw [holdsScriptEnd_joinWith]
  rintro ⟨line, hline, hholds⟩
  rcases List.mem_cons.mp hline with rfl | hline
  · exact h (hholds.mono hfirst.isInfix)
  · obtain ⟨rest, hmem, rfl⟩ := List.mem_map.mp hline
    rw [holdsScriptEnd_append_of_not_mem hindentation] at hholds
    exact h (hholds.mono ((List.drop_suffix _ _).isInfix.trans (hrest rest hmem)))

/-- What is written for a comment, and what stands behind it. -/
theorem holdsScriptEnd_comment {tail : Bytes} (hindent : 0x3C ∉ indent)
    (ht : t.isComment = true) (hbody : ¬ HoldsScriptEnd t.value) :
    HoldsScriptEnd ((step indent s t next).1.gap.flatten ++ ((step indent s t next).1.text ++
      ((step indent s t next).1.after.flatten ++ tail))) ↔ HoldsScriptEnd tail := by
  have hbreaks : ∀ inline : Bool, BreaksOff (if inline then [0x20] else [0x0A]) := by decide
  have hless : ∀ inline : Bool, (0x3C : UInt8) ∉ (if inline then [0x20] else [0x0A] : Bytes) := by
    decide
  rw [step_comment ht]
  dsimp only
  rw [holdsScriptEnd_append_of_not_mem (not_mem_flatten hindent isPiece_commentGap),
    List.flatten_singleton]
  -- behind the text stand a space or a line feed
  rw [holdsScriptEnd_append_of_breaksOff _
      (breaksOff_append (by split <;> exact List.cons_ne_nil _ _) (hbreaks _) tail),
    holdsScriptEnd_append_of_not_mem (hless _)]
  refine or_iff_right ?_
  unfold commentText
  split
  · rw [List.append_assoc, holdsScriptEnd_append_of_not_mem (by decide),
      holdsScriptEnd_append_of_breaksOff _ (by decide), not_or]
    exact ⟨not_holdsScriptEnd_reindent (fun hmem => hindent (mem_indentation hmem)) hbody,
      by decide⟩
  · rwa [holdsScriptEnd_append_of_not_mem (by decide)]
  · rwa [holdsScriptEnd_append_of_not_mem (by decide)]

/-! ## What stands behind a token -/

theorem breaksOff_flatten {gap : List Bytes} (hne : gap.flatten ≠ [])
    (h : ∀ piece ∈ gap.head?, piece = [0x0A] ∨ piece = [0x20]) (code : Bytes) :
    BreaksOff (gap.flatten ++ code) := by
  refine breaksOff_append hne ?_ code
  cases gap with
  | nil => exact absurd rfl hne
  | cons piece gap =>
    rw [List.flatten_cons]
    rcases h piece rfl with rfl | rfl
    · exact breaksOff_append (by decide) (by decide) _
    · exact breaksOff_append (by decide) (by decide) _

/-- White space before a token starts with a space or a line feed, even where the indentation is
neither. -/
theorem breaksOff_gapBefore {kind : Kind} {line level : Int} {frames : List Frame}
    (hnewline : s.addedNewline = false)
    (hne : (gapBefore indent s kind line frames level).flatten ≠ []) (code : Bytes) :
    BreaksOff ((gapBefore indent s kind line frames level).flatten ++ code) := by
  obtain ⟨pieces, hpieces, hgap⟩ := gapBefore_cases indent s kind line frames level
  refine breaksOff_flatten hne (fun piece hp => ?_) code
  rcases hgap with he | ⟨he, hnil⟩
  · rw [he] at hp
    exact hpieces piece (List.mem_of_mem_head? hp)
  · have hpos : pieces ≠ [] := by
      intro h
      rw [hnil h] at hnewline
      cases hnewline
    rw [he, List.head?_append_of_ne_nil _ hpos] at hp
    exact hpieces piece (List.mem_of_mem_head? hp)

theorem breaksOff_commentGap (h : separator s t ≠ []) (code : Bytes) :
    BreaksOff ((commentGap indent s t).flatten ++ code) := by
  refine breaksOff_flatten (commentGap_ne_nil h) (fun piece hp => ?_) code
  have hmem : piece ∈ separator s t := by
    unfold commentGap at hp
    split at hp
    · exact List.mem_of_mem_head? hp
    · rw [List.head?_append_of_ne_nil _ h] at hp
      exact List.mem_of_mem_head? hp
  rcases separator_cases s t with he | he | he
  · exact absurd he h
  · rw [he] at hmem
    exact Or.inl (List.mem_singleton.mp hmem)
  · rw [he] at hmem
    exact Or.inr (List.mem_singleton.mp hmem)

/-- Only slashes could go on with an end, and as operators they have a space before them. -/
theorem breaksOff_punct (p : Punctuator) (last : LastToken) :
    Rules.needsSpace (.punct p) (some last) = true ∨ BreaksOff (utf8 p.label) := by
  have hcases : (Kind.precedence (.punct p) != 0 || Kind.isAssign (.punct p)) = true
      ∨ BreaksOff (utf8 p.label) := by
    cases p <;> decide
  refine hcases.imp (fun h => ?_) id
  unfold Rules.needsSpace
  rw [Bool.or_eq_true] at h
  rcases h with h | h
  · simp [h]
  · simp [h]

theorem not_glues_word {u : Token} (hl : l.kind = .num ∨ l.kind = .regexp)
    (hflags : ¬ l.TakesForFlags u) (hu : ∀ p, u.kind ≠ .punct p) : ¬ l.Glues u := by
  rintro (hglued | hregexp | ⟨hparen, _⟩)
  · generalize u.kind = kind at hglued hu
    rcases hl with hl | hl
    all_goals
      rw [hl] at hglued
      cases kind with
      | punct p => exact hu p rfl
      | _ => cases hglued
  · exact hflags hregexp
  · rcases hl with hl | hl <;> rw [hl] at hparen <;> cases hparen

theorem joins_of_isWordLike {k kind : Kind} (hk : k = .num ∨ k = .regexp)
    (h : Rules.isWordLike kind = true) (hprivate : kind ≠ .privateName) :
    k.joins kind = true := by
  rcases hk with rfl | rfl
  all_goals
    cases kind with
    | privateName => exact absurd rfl hprivate
    | _ => first | rfl | cases h

/-- Nor does a text with nothing in front of it: words are kept apart from numbers and regular
expressions, and a regular expression follows neither. -/
theorem breaksOff_text {exprAllowed : Bool} {u : Token} {kind : Kind} {level : Int}
    {frames : List Frame} (hafter : AfterPlain l (some u) s kind false)
    (hl : l.kind.isComment = false ∧ l.kind ≠ .eof ∧ l.kind ≠ .template)
    (hkind : l.kind.mayStartEnd = true)
    (hexpr : l.kind = .num ∨ l.kind = .regexp → exprAllowed = false)
    (hu : Lexeme exprAllowed u.kind u.value) (hflags : ¬ l.TakesForFlags u)
    (hle : l.stop.line ≤ u.start.line)
    (hgap : (gapBefore indent s (effectiveKind s u) u.start.line frames level).flatten = [])
    (code : Bytes) : BreaksOff (u.text ++ code) := by
  have hnewline : s.addedNewline = false := hafter.addedNewline hu.ordinary.1
  have hneeds := (gapBefore_eq_nil hnewline hafter.space hgap).1
  rw [hafter.last] at hneeds
  -- an operator would have a space behind it
  have hnumber : l.kind = .num ∨ l.kind = .regexp := by
    cases hk : l.kind with
    | num => exact Or.inl rfl
    | regexp => exact Or.inr rfl
    | punct p =>
      have hpunct := hafter.remembered.eq (by rw [hk]; rfl)
      rw [hk] at hkind hpunct
      have hwants : Rules.wantsSpaceBehind (.punct p) = true := hkind
      rw [hpunct, Rules.needsSpace, Rules.spaceBetween, hwants] at hneeds
      cases hneeds
    | _ =>
      rw [hk] at hkind
      cases hkind
  have hjoins : (∀ p, u.kind ≠ .punct p) → l.kind.joins u.kind = false := fun hp =>
    joins_eq_false_of_gap hafter hnewline hl (not_glues_word hnumber hflags hp) hle hgap
  have hword : Rules.isWordLike u.kind = true → u.kind ≠ .privateName → False := by
    intro hword hprivate
    have hnot := hjoins fun p he => by
      rw [he] at hword
      cases hword
    rw [joins_of_isWordLike hnumber hword hprivate] at hnot
    cases hnot
  have heff := rememberedAs_effectiveKind s u
  obtain ⟨ukind, value, first, last⟩ := u
  dsimp only at *
  cases hu with
  | @word chars hchars =>
    exfalso
    rcases wordKind_cases (Utf8.encodeChars chars) with ⟨k, hk⟩ | hk
    · rw [hk] at hword
      exact hword rfl Kind.noConfusion
    · rw [hk] at hword
      exact hword rfl Kind.noConfusion
  | privateName => exact breaksOff_append (x := [0x23]) (by decide) (by decide) _
  | number => exact absurd Kind.noConfusion (hword rfl)
  | regexp hallowed =>
    rw [hexpr hnumber] at hallowed
    cases hallowed
  | string => exact breaksOff_append (x := [0x27]) (by decide) (by decide) _
  | @punct p hp _ =>
    rw [heff.eq rfl] at hneeds
    have hbreaks := (breaksOff_punct p _).resolve_left (Bool.eq_false_iff.mp hneeds)
    exact breaksOff_append (by cases p <;> decide) hbreaks code

/-- **What stands behind a token does not complete an end.** -/
theorem breaksOff_next {exprAllowed : Bool} {situation : Situation} {rest : List Token}
    (h : Lexed situation l.kind (some l) false rest)
    (hb : Behind indent (some l) rest.head? s pending) (hl : Lexeme exprAllowed l.kind l.value)
    (hkind : l.kind.mayStartEnd = true)
    (hexpr : l.kind = .num ∨ l.kind = .regexp → situation.exprAllowed = false)
    (hflags : ∀ u ∈ rest.head?, ¬ l.TakesForFlags u) :
    BreaksOff (pending ++ (emissionsFrom indent s rest).flatMap Emission.bytes) := by
  obtain ⟨hcomment, hkinds⟩ := hl.ordinary
  obtain ⟨kind, broke, hafter, rfl⟩ := hb.plain hcomment
  cases broke with
  | true => exact breaksOff_append (by decide) (by decide) _
  | false =>
    show BreaksOff ((emissionsFrom indent s rest).flatMap Emission.bytes)
    cases h with
    | @comment _ _ _ _ u rest newline _ hu _ _ =>
      rw [bytes_emissionsFrom_cons, step_comment hu.isComment.1]
      exact breaksOff_commentGap (fun hnil => hb.pending_ne_nil hnil rfl) _
    -- the text of a template follows no kind that could start an end
    | chunk _ hprev =>
      exfalso
      rcases opensChunk_iff.mp hprev with he | he | he <;> rw [he] at hkind <;>
        exact absurd hkind (by decide)
    | @token _ _ _ _ u rest newline _ hu hline _ =>
      have hucomment := hu.ordinary.1
      have hnewline : s.addedNewline = false := hafter.addedNewline hucomment
      rw [bytes_emissionsFrom_cons, step_plain hucomment hu.ordinary.2.1]
      -- either white space breaks the end off, or the next text does
      by_cases hgap : (plain indent s u (effectiveKind s u) rest.head?).1.gap.flatten = []
      · have htext : (plain indent s u (effectiveKind s u) rest.head?).1.text = u.text :=
          text_effectiveKind s (value_ne_nil_of_isKeyword hu)
        rw [hgap, List.nil_append, htext]
        exact breaksOff_text hafter ⟨hcomment, hkinds⟩ hkind hexpr hu (hflags u rfl)
          (hline.order l rfl) hgap _
      · exact breaksOff_gapBefore hnewline hgap _
    | @eof _ _ _ _ u newline _ hu _ _ =>
      have hucomment : u.isComment = false := Token.isComment_of_kind hu
      have hnewline : s.addedNewline = false := hafter.addedNewline hucomment
      rw [bytes_emissionsFrom_cons, step_eof hu, hnewline]
      exact show BreaksOff [0x0A] by decide

/-! ## Runs -/

theorem exprAllowed_after {situation : Situation} {kind prev : Kind} {value : Bytes}
    (h : kind = .num ∨ kind = .regexp) : (situation.after kind prev value).exprAllowed = false := by
  rcases h with rfl | rfl
  · rfl
  · rfl

/-- A token of ordinary code, and the tokens behind it. -/
theorem holdsScriptEnd_token {exprAllowed : Bool} {situation : Situation} {prev : Kind}
    {rest : List Token} (hindent : 0x3C ∉ indent) (ht : Lexeme exprAllowed t.kind t.value)
    (hrest : Lexed (situation.after t.kind prev t.value) t.kind (some t) false rest)
    (hbody : t.kind.isVerbatim = true → ¬ HoldsScriptEnd t.value)
    (hflags : ∀ u ∈ rest.head?, ¬ t.TakesForFlags u) :
    HoldsScriptEnd ((emissionsFrom indent s (t :: rest)).flatMap Emission.bytes) ↔
      t.kind = .string ∧ HoldsScriptEnd t.value
        ∨ HoldsScriptEnd ((emissionsFrom indent (step indent s t rest.head?).2 rest).flatMap
          Emission.bytes) := by
  obtain ⟨hcomment, hne, _⟩ := ht.ordinary
  have htext : (step indent s t rest.head?).1.text = t.text :=
    text_step hcomment hne (value_ne_nil_of_isKeyword ht)
  have hgap : 0x3C ∉ (step indent s t rest.head?).1.gap.flatten :=
    not_mem_flatten hindent (isPiece_step t rest.head?)
  have hb : Behind indent (some t) rest.head? (step indent s t rest.head?).2
      (step indent s t rest.head?).1.after.flatten := .step hne
  rw [bytes_emissionsFrom_cons, holdsScriptEnd_append_of_not_mem hgap, htext,
    holdsScriptEnd_text_append ht hbody fun hkind =>
      breaksOff_next hrest hb ht hkind exprAllowed_after hflags,
    holdsScriptEnd_append_of_not_mem hb.not_mem_pending]

/-- The text of a template literal and what ends it. -/
theorem holdsScriptEnd_chunk {p : Punctuator} {u : Token} {rest : List Token}
    (hindent : 0x3C ∉ indent) (ht : t.kind = .template) (hu : u.kind = .punct p)
    (hvalue : u.value = []) (hstop : u.start = t.stop) (hchunk : Chunk t.value p)
    (hbody : ¬ HoldsScriptEnd t.value) :
    HoldsScriptEnd ((emissionsFrom indent s (t :: u :: rest)).flatMap Emission.bytes) ↔
      HoldsScriptEnd ((emissionsFrom indent (step indent (step indent s t (some u)).2 u
        rest.head?).2 rest).flatMap Emission.bytes) := by
  have haround : AroundChunk t.kind u.kind := Or.inr ⟨ht, hchunk.kind hu⟩
  obtain ⟨⟨htcomment, -, -⟩, hucomment, -, hune⟩ := haround.ordinary
  have htne := haround.ne_eof
  have hgap : 0x3C ∉ (step indent s t (some u)).1.gap.flatten :=
    not_mem_flatten hindent (isPiece_step t (some u))
  have htext : (step indent s t (some u)).1.text = t.value := by
    rw [step_plain htcomment htne,
      show effectiveKind s t = .template from
        ((rememberedAs_effectiveKind s t).eq (by rw [ht]; rfl)).trans ht]
    rfl
  -- the delimiter stands right behind the text
  have hb : Behind indent (some t) (some u) (step indent s t (some u)).2
      (step indent s t (some u)).1.after.flatten := .step htne
  obtain ⟨hafter, hgap'⟩ := hb.gap_chunk haround hstop rest.head?
  rw [if_neg (by rw [ht]; exact Kind.noConfusion)] at hgap'
  have htext' : (step indent (step indent s t (some u)).2 u rest.head?).1.text =
      utf8 p.label := by
    rw [step_plain hucomment hune,
      show effectiveKind _ u = .punct p from
        ((rememberedAs_effectiveKind _ u).eq (by rw [hu]; rfl)).trans hu]
    show (if u.value.isEmpty then utf8 p.label else u.value) = _
    rw [hvalue]
    rfl
  have hdelimiter : utf8 p.label ≠ [] ∧ 0x3C ∉ utf8 p.label ∧ BreaksOff (utf8 p.label) := by
    rcases hchunk.delimiter with rfl | rfl
    · decide
    · decide
  have hpending : 0x3C ∉ (step indent (step indent s t (some u)).2 u rest.head?).1.after.flatten :=
    Behind.not_mem_pending (.step hune)
  rw [bytes_emissionsFrom_cons, List.head?_cons, holdsScriptEnd_append_of_not_mem hgap,
    bytes_emissionsFrom_cons, htext, hafter, hgap', htext', List.flatten_nil, List.nil_append,
    List.nil_append,
    holdsScriptEnd_append_of_breaksOff _ (breaksOff_append hdelimiter.1 hdelimiter.2.2 _),
    or_iff_right hbody, holdsScriptEnd_append_of_not_mem hdelimiter.2.1,
    holdsScriptEnd_append_of_not_mem hpending]

/-- **The output holds an end exactly if a string does**, given that no piece of the source
does. -/
theorem holdsScriptEnd_emissions {situation : Situation} {prev : Kind} {last : Option Token}
    {seen : Bool} {tokens : List Token} (hindent : 0x3C ∉ indent)
    (h : Lexed situation prev last seen tokens)
    (hbody : ∀ t ∈ tokens, t.kind.isVerbatim = true → ¬ HoldsScriptEnd t.value)
    (hflags : tokens.IsChain fun a b => ¬ a.TakesForFlags b) :
    HoldsScriptEnd ((emissionsFrom indent s tokens).flatMap Emission.bytes) ↔
      ∃ t ∈ tokens, t.kind = .string ∧ HoldsScriptEnd t.value := by
  have hcons : ∀ {t : Token} {rest : List Token},
      (∃ u ∈ t :: rest, u.kind = .string ∧ HoldsScriptEnd u.value) ↔
        t.kind = .string ∧ HoldsScriptEnd t.value
          ∨ ∃ u ∈ rest, u.kind = .string ∧ HoldsScriptEnd u.value := by
    intro t rest
    simp only [List.mem_cons, exists_eq_or_imp]
  induction h generalizing s with
  | @comment situation prev last seen t rest flag hs ht hline hrest ih =>
    have hcomment := ht.isComment.1
    have hkinds : t.kind.isVerbatim = true ∧ t.kind ≠ .string := by
      rcases ht with ⟨he, _⟩ | ⟨he, _⟩
      · rw [he]
        decide
      · rw [he]
        decide
    rw [bytes_emissionsFrom_cons,
      holdsScriptEnd_comment hindent hcomment (hbody t List.mem_cons_self hkinds.1), hcons,
      or_iff_right fun h => hkinds.2 h.1]
    exact ih (fun u hu => hbody u (List.mem_cons_of_mem t hu)) hflags.tail
  | @chunk situation prev l seen t u p rest hs hprev hl ht hstart hu hvalue hstop hchunk hrest ih =>
    rw [holdsScriptEnd_chunk hindent ht hu hvalue hstop hchunk
        (hbody t List.mem_cons_self (by rw [ht]; rfl)), hcons, hcons,
      or_iff_right fun h => absurd (ht.symm.trans h.1) Kind.noConfusion,
      or_iff_right fun h => absurd (hu.symm.trans h.1) Kind.noConfusion]
    exact ih (fun k hk => hbody k (List.mem_cons_of_mem t (List.mem_cons_of_mem u hk)))
      hflags.tail.tail
  -- strings are among these, which are what the right side counts
  | @token situation prev last seen t rest flag hs ht hline hrest ih =>
    rw [holdsScriptEnd_token hindent ht hrest (hbody t List.mem_cons_self)
      (List.isChain_cons.mp hflags).1, hcons]
    exact or_congr_right (ih (fun u hu => hbody u (List.mem_cons_of_mem t hu)) hflags.tail)
  | @eof situation prev last seen t flag hs ht hvalue hline =>
    refine iff_of_false (not_holdsScriptEnd_of_not_mem ?_) ?_
    · rw [bytes_emissionsFrom_cons, step_eof ht]
      dsimp only [emissionsFrom]
      split
      · decide
      · decide
    · rintro ⟨u, hu, hkind, _⟩
      rw [List.mem_singleton.mp hu, ht] at hkind
      cases hkind

end Layout

open InlineScript in
/-- **A formatted script ends its own element exactly if one of its strings does.** Numbers,
templates, regular expressions, comments and names never do, and no two tokens do together; a
string is written as it was decoded, and `</script` is not escaped. Regular expressions with a
word right behind them are left out. -/
theorem holdsScriptEnd_format (o : Options) (start : Position) (line : Nat) {body : Bytes}
    {tokens : List Token} (h : tokenize body = .ok tokens) (hbody : ¬ HoldsScriptEnd body)
    (hindent : 0x3C ∉ o.indent) (hflags : tokens.IsChain fun a b => ¬ a.TakesForFlags b) :
    ∃ f, format (scriptOptions o start line) body = .ok f
      ∧ (HoldsScriptEnd f.code ↔
        ∃ t ∈ tokens, t.kind = .string ∧ HoldsScriptEnd t.value) := by
  refine ⟨formatTokens (scriptOptions o start line) tokens, by rw [format, h], ?_⟩
  have hraw : ∀ t ∈ tokens, t.kind.isVerbatim = true → ¬ HoldsScriptEnd t.value :=
    fun t ht hkind hholds => hbody (hholds.mono (tokenize_verbatim h ht hkind))
  have hsource := tokenize_lexed h
  have hcode : (formatTokens (scriptOptions o start line) tokens).code =
      [0x0A] ++ (Layout.emissionsFrom o.indent {} tokens).flatMap Emission.bytes :=
    Layout.code_formatTokens hsource
  rw [hcode, holdsScriptEnd_append_of_not_mem (by decide)]
  cases hsource with
  | plain hlexed => exact Layout.holdsScriptEnd_emissions hindent hlexed hraw hflags
  | @hashbang t rest ht hvalue hlexed =>
    have hcomment : t.isComment = true := Token.isComment_of_kind ht
    rw [Layout.bytes_emissionsFrom_cons, Layout.holdsScriptEnd_comment hindent hcomment
        (hraw t List.mem_cons_self (by rw [ht]; rfl)),
      Layout.holdsScriptEnd_emissions hindent hlexed
        (fun u hu => hraw u (List.mem_cons_of_mem t hu)) hflags.tail]
    simp [ht]

theorem holdsScriptEnd_format_comparison :
    ∃ f, format (InlineScript.scriptOptions { indent := utf8 "  " } ⟨1, 8, 8⟩ 1)
        (utf8 "a<'/script'") = .ok f ∧ ¬ HoldsScriptEnd f.code := by
  obtain ⟨f, hf, hends⟩ := holdsScriptEnd_format { indent := utf8 "  " } ⟨1, 8, 8⟩ 1
    (show tokenize (utf8 "a<'/script'") = .ok [⟨.name, utf8 "a", ⟨1, 0, 0⟩, ⟨1, 1, 1⟩⟩,
      ⟨.punct .less, [], ⟨1, 1, 1⟩, ⟨1, 2, 2⟩⟩, ⟨.string, utf8 "/script", ⟨1, 2, 2⟩, ⟨1, 11, 11⟩⟩,
      ⟨.eof, [], ⟨1, 11, 11⟩, ⟨1, 11, 11⟩⟩] by decide +kernel)
    (by decide) (by decide) (by decide)
  refine ⟨f, hf, fun hholds => ?_⟩
  exact absurd (hends.mp hholds) (by decide)

/-- An escaped slash in a string comes out without its backslash, and with it the end of the
element. -/
theorem holdsScriptEnd_format_escaped_slash :
    ¬ HoldsScriptEnd (utf8 "x='<\\/script>'")
      ∧ ∃ f, format (InlineScript.scriptOptions { indent := utf8 "  " } ⟨1, 8, 8⟩ 1)
          (utf8 "x='<\\/script>'") = .ok f ∧ HoldsScriptEnd f.code := by
  refine ⟨by decide, ?_⟩
  have hrun : (format (InlineScript.scriptOptions { indent := utf8 "  " } ⟨1, 8, 8⟩ 1)
      (utf8 "x='<\\/script>'")).toOption.any (fun f => decide (HoldsScriptEnd f.code)) = true := by
    decide +kernel
  generalize format _ _ = result at hrun
  cases result with
  | error e => cases hrun
  | ok f => exact ⟨f, rfl, of_decide_eq_true hrun⟩

end ScriptTidy
