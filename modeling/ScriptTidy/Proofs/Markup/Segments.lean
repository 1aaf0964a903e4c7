import ScriptTidy.Markup.InlineScript

/-!
# Where the tokens of a document lie

The tokens of a document make up the document, byte by byte, and the text of an inline script is
delimited: it stands right behind the angle bracket that ends its start tag, and in front of
another angle bracket or the end of the document. Positions in a script can therefore be counted
without the rest of the document.

* `raw_tokens` : nothing is lost between tokens.
* `delimited_tokens` : scripts are delimited.
-/

namespace ScriptTidy.Markup

/-! ## Tags -/

theorem dropOne_suffix (p : UInt8 → Bool) (text : Bytes) : dropOne p text <:+ text := by
  cases text with
  | nil => exact List.suffix_refl _
  | cons b r =>
    rw [dropOne]
    split
    · exact List.suffix_cons b r
    · exact List.suffix_refl _

theorem readKey_suffix (text : Bytes) : (readKey text).2 <:+ text :=
  (dropOne_suffix _ _).trans (List.dropWhile_suffix _)

theorem readValue_suffix (text : Bytes) : (readValue text).2 <:+ text := by
  have hblank : text.dropWhile isTagSpace <:+ text := List.dropWhile_suffix _
  unfold readValue
  split
  next => exact List.nil_suffix
  next b r h =>
    rw [h] at hblank
    refine List.IsSuffix.trans ?_ hblank
    split
    · exact ((List.drop_suffix _ _).trans (List.dropWhile_suffix _)).trans (List.suffix_cons b r)
    · exact (dropOne_suffix _ _).trans (List.dropWhile_suffix _)

theorem readOptionalValue_suffix (text : Bytes) : (readOptionalValue text).2 <:+ text := by
  have hblank : text.dropWhile isTagSpace <:+ text := List.dropWhile_suffix _
  unfold readOptionalValue
  split
  next r h =>
    rw [h] at hblank
    exact ((readValue_suffix r).trans (List.suffix_cons _ r)).trans hblank
  next => exact hblank

/-- Attributes end at an angle bracket. -/
theorem readAttributes_eq_some {fuel : Nat} {text rest : Bytes} {attributes : List Attribute}
    (h : readAttributes fuel text = some (attributes, rest)) :
    ∃ front, text = front ++ 0x3E :: rest := by
  induction fuel generalizing text attributes with
  | zero => cases h
  | succ fuel ih =>
    cases text with
    | nil => cases h
    | cons b r =>
      rw [readAttributes] at h
      split at h
      next hb =>
        cases h
        exact ⟨[], by rw [hb]; rfl⟩
      next =>
        dsimp only at h
        split at h
        next => cases h
        next more rest' hmore =>
          cases h
          obtain ⟨front, hfront⟩ := ih hmore
          -- each attribute takes a front part of the text off
          obtain ⟨skipped, hskipped⟩ := (List.dropWhile_suffix isTagSpace).trans
            ((readOptionalValue_suffix (readKey (b :: r)).2).trans (readKey_suffix (b :: r)))
          refine ⟨skipped ++ front, ?_⟩
          rw [List.append_assoc, ← hfront]
          exact hskipped.symm

theorem readTag_eq_some {text rest : Bytes} {tag : Tag} (h : readTag text = some (tag, rest)) :
    ∃ front, text = front ++ 0x3E :: rest := by
  unfold readTag at h
  dsimp only at h
  split at h
  next => cases h
  next attributes r hr =>
    cases h
    obtain ⟨front, hfront⟩ := readAttributes_eq_some hr
    obtain ⟨skipped, hskipped⟩ :=
      (List.dropWhile_suffix isTagSpace).trans (List.drop_suffix _ text)
    refine ⟨skipped ++ front, ?_⟩
    rw [List.append_assoc, ← hfront]
    exact hskipped.symm

/-! ## One token -/

/-- A token is cut off the front of the text, if there is any, and a start tag ends at its angle
bracket. -/
structure CutOff (text : Bytes) (result : MarkupToken × Bytes) : Prop where
  append_eq : result.1.raw ++ result.2 = text
  raw_ne_nil : result.1.raw ≠ []
  startTag : ∀ tag, result.1.kind = .startTag tag → result.1.raw.getLast? = some 0x3E

theorem cutOff_cut {kind : TokenKind} {count : Nat} {text : Bytes} (hcount : 0 < count)
    (htext : text ≠ []) (hkind : ∀ tag, kind ≠ .startTag tag) :
    CutOff text (cut kind count text) := by
  refine ⟨List.take_append_drop _ _, ?_, fun tag h => absurd h (hkind tag)⟩
  intro hnil
  rcases List.take_eq_nil_iff.mp hnil with h | h
  · omega
  · exact htext h

theorem throughAngle_pos {text : Bytes} (h : text ≠ []) : 0 < throughAngle text := by
  cases text with
  | nil => exact absurd rfl h
  | cons b r =>
    rw [throughAngle]
    split <;> omega

theorem cutOff_readStartTag {text : Bytes} (h : text ≠ []) : CutOff text (readStartTag text) := by
  unfold readStartTag
  split
  next => exact cutOff_cut (List.length_pos_iff.mpr h) h fun _ => TokenKind.noConfusion
  next tag rest htag =>
    obtain ⟨front, hfront⟩ := readTag_eq_some htag
    obtain ⟨b, r, rfl⟩ := List.exists_cons_of_ne_nil h
    have htext : b :: r = (b :: front ++ [0x3E]) ++ rest := by
      rw [List.append_assoc]
      exact congrArg (b :: ·) hfront
    -- the length that is cut off is counted from the end
    have htake : (b :: r).take ((b :: r).length - rest.length) = b :: front ++ [0x3E] := by
      rw [htext, List.length_append, Nat.add_sub_cancel, List.take_left]
    refine ⟨List.take_append_drop _ _, ?_, fun _ _ => ?_⟩
    · show (b :: r).take _ ≠ []
      rw [htake]
      exact List.cons_ne_nil _ _
    · show ((b :: r).take _).getLast? = _
      rw [htake]
      exact List.getLast?_concat

theorem cutOff_readEndTag {text name : Bytes} (h : text ≠ []) (hname : name <:+ text) :
    CutOff text (readEndTag text name) := by
  have hlength := List.length_pos_iff.mpr h
  unfold readEndTag
  split
  next => exact cutOff_cut hlength h fun _ => TokenKind.noConfusion
  next b r =>
    split
    · split
      next => exact cutOff_cut hlength h fun _ => TokenKind.noConfusion
      next tag rest htag =>
        obtain ⟨front, hfront⟩ := readTag_eq_some htag
        have hle := hname.length_le
        have hpos : 0 < text.length - rest.length := by
          rw [hfront, List.length_append, List.length_cons] at hle
          omega
        exact cutOff_cut hpos h fun _ => TokenKind.noConfusion
    · exact cutOff_cut (throughAngle_pos h) h fun _ => TokenKind.noConfusion

theorem cutOff_readMarkup {text : Bytes} (h : text ≠ []) : CutOff text (readMarkup text) := by
  unfold readMarkup
  split
  next name => exact cutOff_readEndTag h ((List.suffix_cons _ name).trans (List.suffix_cons _ _))
  next => exact cutOff_cut (by omega) h fun _ => TokenKind.noConfusion
  next => exact cutOff_cut (throughAngle_pos h) h fun _ => TokenKind.noConfusion
  next => exact cutOff_cut (throughAngle_pos h) h fun _ => TokenKind.noConfusion
  next => exact cutOff_readStartTag h

/-- **Each token is a part of the text.** -/
theorem cutOff_readNext (raw : Option Bytes) {text : Bytes} (h : text ≠ []) :
    CutOff text (readNext raw text) := by
  unfold readNext
  dsimp only
  split
  next hraw => exact cutOff_cut hraw h fun _ => TokenKind.noConfusion
  next =>
    split
    next htext => exact cutOff_cut htext h fun _ => TokenKind.noConfusion
    next => exact cutOff_readMarkup h

theorem tokensWith_of_ne_nil {text : Bytes} (h : text ≠ []) (fuel : Nat) (raw : Option Bytes) :
    tokensWith (fuel + 1) raw text = (readNext raw text).1
      :: tokensWith fuel (readNext raw text).1.kind.rawElement? (readNext raw text).2 := by
  cases text with
  | nil => exact absurd rfl h
  | cons b r => rfl

/-- Reading a token leaves less to read. -/
theorem readNext_length_lt (raw : Option Bytes) {text : Bytes} (h : text ≠ []) :
    (readNext raw text).2.length < text.length := by
  obtain ⟨happend, hne, -⟩ := cutOff_readNext raw h
  have hlength := congrArg List.length happend
  have hpos := List.length_pos_iff.mpr hne
  rw [List.length_append] at hlength
  omega

/-- **The tokens make up the text**, whatever it is. -/
theorem raw_tokensWith {fuel : Nat} {raw : Option Bytes} {text : Bytes}
    (h : text.length ≤ fuel) : (tokensWith fuel raw text).flatMap (·.raw) = text := by
  induction fuel generalizing raw text with
  | zero =>
    rw [List.eq_nil_of_length_eq_zero (Nat.le_zero.mp h)]
    rfl
  | succ fuel ih =>
    by_cases hnil : text = []
    · rw [hnil]
      rfl
    · have hlt := readNext_length_lt raw hnil
      rw [tokensWith_of_ne_nil hnil, List.flatMap_cons, ih (by omega)]
      exact (cutOff_readNext raw hnil).append_eq

/-! ## Scripts -/

open InlineScript (opensAfter isScriptText opensScript)

/-- The scripts among tokens are delimited: each stands right behind a closing angle bracket and
is followed by an opening one or by nothing. `done` is the text before the tokens, and `inside`
says whether a text that comes first is a script. -/
def Delimited : (inside : Bool) → (done : Bytes) → List MarkupToken → Prop
  | _, _, [] => True
  | inside, done, t :: rest =>
    (isScriptText inside t = true → done.getLast? = some 0x3E
        ∧ ∀ b ∈ (rest.flatMap (·.raw)).head?, b = 0x3C)
      ∧ Delimited (opensAfter inside t.kind) (done ++ t.raw) rest

/-- In front of the end of a script, or of the end of the document. -/
def AtScriptEnd (text : Bytes) : Prop := text = [] ∨ startsWithEndTag scriptName text = true

/-- A script ends where its end tag starts. -/
theorem atScriptEnd_of_step {s : ScriptState} {b : UInt8} {r : Bytes} (h : s.step b r = none) :
    AtScriptEnd (b :: r) := by
  -- all other branches of the step go on to another state
  unfold ScriptState.step at h
  split at h
  next =>
    split at h
    next htag => exact .inr htag
    next =>
      split at h <;> cases h
  next dashes =>
    split at h
    · cases h
    · split at h
      · cases h
      · split at h
        next hb =>
          subst hb
          split at h
          · cases h
          · split at h
            next rest hname => exact .inr hname
            next => cases h
          · split at h
            · split at h <;> cases h
            · cases h
        next => cases h
  next dashes =>
    split at h
    · cases h
    · split at h
      · cases h
      · split at h <;> cases h

theorem atScriptEnd_drop (s : ScriptState) (text : Bytes) :
    AtScriptEnd (text.drop (scriptLength s text)) := by
  fun_induction scriptLength s text with
  | case1 => exact .inl rfl
  | case2 s b r h => exact atScriptEnd_of_step h
  | case3 s b r s' more h ih =>
    have hmin : r.drop (min more r.length) = r.drop more := by
      by_cases hle : more ≤ r.length
      · rw [Nat.min_eq_left hle]
      · rw [Nat.min_eq_right (by omega), List.drop_length, List.drop_eq_nil_of_le (by omega)]
    rw [Nat.add_assoc, Nat.add_comm 1, List.drop_succ_cons, ← List.drop_drop, hmin]
    exact ih

theorem startsWithEndTag_script {text : Bytes} (h : startsWithEndTag scriptName text = true) :
    ∃ b r, text = 0x3C :: 0x2F :: b :: r ∧ isLetter b = true := by
  unfold startsWithEndTag at h
  split at h
  next rest =>
    rw [startsWithName, Bool.and_eq_true, beq_iff_eq] at h
    cases rest with
    | nil => exact absurd h.1 (by decide)
    | cons b r =>
      refine ⟨b, r, rfl, ?_⟩
      -- the first letter of the name, in lower case
      have hlower : (if 0x41 ≤ b && b ≤ 0x5A then b + 0x20 else b) = 0x73 := (List.cons.inj h.1).1
      unfold isLetter
      split at hlower
      next hupper => rw [hupper, Bool.or_true]
      next =>
        rw [hlower]
        rfl
  next => cases h

theorem rawTextLength_script (text : Bytes) :
    rawTextLength scriptName text = scriptLength .data text := by
  unfold rawTextLength
  rw [if_neg (by decide), if_pos rfl]

/-- What ends a script is no text. -/
theorem readNext_of_startsWithEndTag {raw : Option Bytes} {text : Bytes}
    (h : startsWithEndTag scriptName text = true) (hraw : raw = none ∨ raw = some scriptName) :
    (readNext raw text).1.kind = .endTag
      ∨ ((readNext raw text).1.kind = .cutTag ∧ (readNext raw text).2 = []) := by
  have hcount : (raw.map (rawTextLength · text)).getD 0 = 0 := by
    rcases hraw with rfl | rfl
    · rfl
    · show rawTextLength scriptName text = 0
      rw [rawTextLength_script]
      obtain ⟨b, r, rfl, -⟩ := startsWithEndTag_script h
      have hstep : ScriptState.data.step 0x3C (0x2F :: b :: r) = none := if_pos h
      rw [scriptLength, hstep]
  obtain ⟨b, r, rfl, hb⟩ := startsWithEndTag_script h
  have htext : textLength (0x3C :: 0x2F :: b :: r) = 0 := rfl
  have hmarkup : readMarkup (0x3C :: 0x2F :: b :: r)
      = readEndTag (0x3C :: 0x2F :: b :: r) (b :: r) := rfl
  unfold readNext
  dsimp only
  rw [hcount, htext, if_neg (Nat.lt_irrefl 0), if_neg (Nat.lt_irrefl 0), hmarkup, readEndTag,
    if_pos hb]
  split
  next => exact .inr ⟨rfl, List.drop_length⟩
  next => exact .inl rfl

/-- What a reader of markup stands in front of if a text that comes next is a script: the text
behind a start tag, or what ends it. -/
def InScript (raw : Option Bytes) (done text : Bytes) : Prop :=
  (raw = some scriptName ∧ done.getLast? = some 0x3E) ∨ (raw = none ∧ AtScriptEnd text)

theorem AtScriptEnd.head {text : Bytes} (h : AtScriptEnd text) : ∀ b ∈ text.head?, b = 0x3C := by
  rcases h with rfl | h
  · intro b hb
    cases hb
  · obtain ⟨c, r, rfl, -⟩ := startsWithEndTag_script h
    intro b hb
    exact (Option.some.inj hb).symm

/-- Behind a start tag of a script comes the script. -/
theorem inScript_of_opensScript {tag : Tag} {done text rest : Bytes} {t : MarkupToken}
    (hcut : CutOff text (t, rest)) (hkind : t.kind = .startTag tag)
    (hopens : opensScript tag = true) : InScript t.kind.rawElement? (done ++ t.raw) rest := by
  have hname : tag.name = scriptName := by
    unfold opensScript at hopens
    rw [Bool.and_eq_true, Bool.and_eq_true] at hopens
    exact eq_of_beq hopens.1.1
  have hraw : isRawElement scriptName = true := by decide
  refine .inl ⟨?_, ?_⟩
  · rw [hkind]
    show (if isRawElement tag.name then some tag.name else none) = _
    rw [hname, if_pos hraw]
  · rw [List.getLast?_append, hcut.startTag tag hkind]
    rfl

/-- A token that was read behind `done` is delimited if it is a script, and if a script can come
behind it, the reader stands in front of that or of its end. -/
def StaysDelimited (inside : Bool) (done : Bytes) (result : MarkupToken × Bytes) : Prop :=
  (isScriptText inside result.1 = true →
      done.getLast? = some 0x3E ∧ ∀ b ∈ result.2.head?, b = 0x3C)
    ∧ (opensAfter inside result.1.kind = true →
      InScript result.1.kind.rawElement? (done ++ result.1.raw) result.2)

/-- In front of the end of a script, whether or not the script has a text. -/
theorem staysDelimited_of_atScriptEnd {raw : Option Bytes} {done text : Bytes} (hne : text ≠ [])
    (hraw : raw = none ∨ raw = some scriptName) (h : AtScriptEnd text) :
    StaysDelimited true done (readNext raw text) := by
  unfold StaysDelimited isScriptText
  rcases readNext_of_startsWithEndTag (h.resolve_left hne) hraw with hkind | ⟨hkind, hrest⟩
  · rw [hkind]
    exact ⟨Bool.noConfusion, Bool.noConfusion⟩
  · rw [hkind, hrest]
    exact ⟨Bool.noConfusion, fun _ => .inr ⟨rfl, .inl rfl⟩⟩

/-- **One step** of the reader. -/
theorem staysDelimited_readNext {raw : Option Bytes} {inside : Bool} {done text : Bytes}
    (hne : text ≠ []) (h : inside = true → InScript raw done text) :
    StaysDelimited inside done (readNext raw text) := by
  have hcut := cutOff_readNext raw hne
  cases inside with
  | false =>
    refine ⟨Bool.noConfusion, fun hopens => ?_⟩
    cases hkind : (readNext raw text).1.kind with
    | startTag tag =>
      rw [hkind] at hopens
      rw [← hkind]
      exact inScript_of_opensScript hcut hkind hopens
    | _ =>
      rw [hkind] at hopens
      cases hopens
  | true =>
    rcases h rfl with ⟨rfl, hdone⟩ | ⟨rfl, htext⟩
    · have hrest := atScriptEnd_drop .data text
      -- the text of the script, or its end tag if there is no text left
      by_cases hcount : 0 < scriptLength .data text
      · have hread : readNext (some scriptName) text
            = cut .text (scriptLength .data text) text := by
          rw [← rawTextLength_script] at hcount ⊢
          exact if_pos hcount
        rw [hread]
        exact ⟨fun _ => ⟨hdone, hrest.head⟩, fun _ => .inr ⟨rfl, hrest⟩⟩
      · rw [Nat.eq_zero_of_not_pos hcount, List.drop_zero] at hrest
        exact staysDelimited_of_atScriptEnd hne (.inr rfl) hrest
    · exact staysDelimited_of_atScriptEnd hne (.inl rfl) htext

theorem delimited_tokensWith {fuel : Nat} {raw : Option Bytes} {inside : Bool} {done text : Bytes}
    (hfuel : text.length ≤ fuel) (h : inside = true → InScript raw done text) :
    Delimited inside done (tokensWith fuel raw text) := by
  induction fuel generalizing raw inside done text with
  | zero => exact trivial
  | succ fuel ih =>
    by_cases hnil : text = []
    · rw [hnil]
      exact trivial
    · have hlt := readNext_length_lt raw hnil
      obtain ⟨hscript, hnext⟩ := staysDelimited_readNext hnil h
      rw [tokensWith_of_ne_nil hnil, Delimited, raw_tokensWith (by omega)]
      exact ⟨hscript, ih (by omega) hnext⟩

/-- **Scripts are delimited.** -/
theorem delimited_tokens (document : Bytes) : Delimited false [] (tokens document) :=
  delimited_tokensWith (Nat.le_refl _) Bool.noConfusion

theorem raw_tokens (document : Bytes) : (tokens document).flatMap (·.raw) = document :=
  raw_tokensWith (Nat.le_refl _)

end ScriptTidy.Markup
