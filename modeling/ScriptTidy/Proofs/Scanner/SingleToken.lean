import ScriptTidy.Proofs.Scanner.Cover
import ScriptTidy.Proofs.Scanner.Spells
import ScriptTidy.Proofs.Scanner.StringLiteral

/-!
# Texts that are a single token

The text of a token can be a source of its own. Nothing stands in front of it and nothing behind
it, so that the scan gives the token and the end of the source.

* `tokenize_alone`, `tokenize_of_readsAs` : any text that is read as one token.
* `tokenize_quote` : for the written form of a string, which token that is.
* `tokenize_text` : for the text that a token of a source is written as, that token.
-/

namespace ScriptTidy.Scanner

open StringLiteral

/-- Only a quote opens a template literal at the start of a source. -/
theorem innermost_after_first {kind : Kind} (h : kind ≠ .punct .backQuote) (value : Bytes) :
    (({} : Situation).after kind .eof value).innermost ≠ .template := by
  intro htemplate
  rcases opensChunk_iff.mp (opensChunk_of_after (by decide) htemplate) with rfl | rfl | rfl
  · exact h rfl
  · cases htemplate
  · cases htemplate

/-- At the end of a source the run ends with the end. -/
theorem collect_of_nil {c : Cursor} {s : Situation} {prev : Kind} (hs : s.innermost ≠ .template)
    (hc : c.rest = []) (fuel : Nat) :
    collect (fuel + 1) ⟨c, prev, s, false, none⟩ = .ok [bareToken .eof c c] := by
  rw [collect_succ_eq_resume rfl rfl hs, readTrivia_here (triviaEnds_of_nil hc), resume]
  dsimp only
  rw [readToken_of_nil hc]
  rfl

/-- **A text that is read as a token is a source with that token only**, which covers all of it. -/
theorem tokenize_alone {kind : Kind} {value text : Bytes} (h : ReadsAs true kind value text [])
    (heof : kind ≠ .eof) (hquote : kind ≠ .punct .backQuote) :
    ∃ stop : Position, stop.offset = text.length
      ∧ tokenize text = .ok [⟨kind, value, ⟨1, 0, 0⟩, stop⟩, ⟨.eof, [], stop, stop⟩] := by
  have hblock : ({} : Situation).innermost ≠ .template := by decide
  have hspells : Spells {} .eof false [(kind, value), (.eof, [])] (text ++ []) :=
    .token hblock heof h (.eof (innermost_after_first hquote value))
  have hstart : StartsPlain (Cursor.ofSource text) :=
    hspells.start hblock (by rw [List.append_nil]; rfl)
  obtain ⟨hne, hread⟩ := h
  obtain ⟨hends, t, d, ht, hkind, hvalue, hrest⟩ :=
    hread (Cursor.ofSource text) (by rw [List.append_nil]; rfl)
  rw [Utf8.glyphs_nil] at hrest
  -- the places are those of the cursors around the token
  have hsound := readToken_sound (Utf8.isDecoding_glyphs text) hends.comment ht
  obtain ⟨m, hm⟩ : ∃ m, 2 * text.length = m + 1 := by
    have hpos := List.length_pos_iff.mpr hne
    exact ⟨2 * text.length - 1, by omega⟩
  have hbehind := innermost_after_first (hkind ▸ hquote) t.value
  have htoken : t = ⟨kind, value, ⟨1, 0, 0⟩, d.position⟩ := by
    rw [← hkind, ← hvalue, ← hsound.stop_eq,
      show (⟨1, 0, 0⟩ : Position) = t.start from hsound.start_eq.symm]
  refine ⟨d.position, congrArg Int.ofNat (offset_of_rest_eq_nil hsound.reaches hrest), ?_⟩
  rw [tokenize_of_startsPlain hstart, hm, collect_succ_eq_resume rfl rfl hblock,
    readTrivia_here hends, resume]
  dsimp only
  rw [ht]
  dsimp only
  rw [if_neg (hkind ▸ heof), behind, collect_of_nil hbehind hrest, htoken]
  rfl

/-- The same, of kinds and values only. -/
theorem tokenize_of_readsAs {kind : Kind} {value text : Bytes}
    (h : ReadsAs true kind value text []) (heof : kind ≠ .eof) (hquote : kind ≠ .punct .backQuote) :
    ∃ t e, tokenize text = .ok [t, e] ∧ t.content = (kind, value) ∧ e.content = (.eof, []) := by
  obtain ⟨stop, -, htokens⟩ := tokenize_alone h heof hquote
  exact ⟨_, _, htokens, rfl, rfl⟩

/-- **A written string is a source with a string only.** Its value is the string with each high
surrogate that stands in front of a low one replaced, together with it, by the character that they
form; without such a pair it is the string itself. -/
theorem tokenize_quote {ns : List Nat} (hns : ∀ n ∈ ns, n < 0x110000) :
    ∃ t e, tokenize (quote (ns.flatMap Utf8.encode)) = .ok [t, e]
      ∧ t.kind = .string ∧ t.value = (joinPairs ns).flatMap Utf8.encode ∧ e.kind = .eof
      ∧ (NoPair ns → t.value = ns.flatMap Utf8.encode) := by
  obtain ⟨t, e, htokens, ht, he⟩ :=
    tokenize_of_readsAs (readsAs_string hns) Kind.noConfusion Kind.noConfusion
  have hvalue : t.value = (joinPairs ns).flatMap Utf8.encode := congrArg Prod.snd ht
  refine ⟨t, e, htokens, congrArg Prod.fst ht, hvalue, congrArg Prod.fst he, fun hpair => ?_⟩
  rw [hvalue, joinPairs_of_noPair hpair]

/-- A pair of surrogates becomes one character; a surrogate that has a quote, a letter or an
escape behind it stays. -/
theorem tokenize_quote_surrogates :
    (∀ n ∈ [0xD83D, 0xDE00, 0x27, 0xD800, 0x2028, 0xDC00, 0x41], n < 0x110000)
      ∧ ∃ t e, tokenize (utf8 "'\\uD83D\\uDE00\\'\\uD800\\u2028\\uDC00A'") = .ok [t, e]
        ∧ t.kind = .string
        ∧ t.value = utf8 "😀'" ++ [0xED, 0xA0, 0x80] ++ utf8 "\u2028" ++ [0xED, 0xB0, 0x80, 0x41]
        ∧ e.kind = .eof := by
  have hns : ∀ n ∈ [0xD83D, 0xDE00, 0x27, 0xD800, 0x2028, 0xDC00, 0x41], n < 0x110000 := by decide
  have hquote : quote ([0xD83D, 0xDE00, 0x27, 0xD800, 0x2028, 0xDC00, 0x41].flatMap Utf8.encode) =
      utf8 "'\\uD83D\\uDE00\\'\\uD800\\u2028\\uDC00A'" := by decide +kernel
  obtain ⟨t, e, htokens, hkind, hvalue, heof, -⟩ := tokenize_quote hns
  rw [hquote] at htokens
  refine ⟨hns, t, e, htokens, hkind, hvalue.trans ?_, heof⟩
  decide

/-! ## The tokens of a source -/

/-- Whether a token of the kind can be a source of its own. Comments and the end are no tokens of
code, template literals take several tokens, and a slash starts something else where an expression
may start. -/
def standsAlone : Kind → Bool
  | .eof | .template | .punct .backQuote | .punct .dollarBraceL | .punct .slash
  | .punct .slashEq => false
  | kind => !kind.isComment

/-- The tokens of a stream are lexemes, but for those that cannot stand alone. The quote that closes
a template literal is one as well. -/
theorem Lexed.lexeme {s : Situation} {prev : Kind} {last : Option Token} {seen : Bool}
    {tokens : List Token} {t : Token} (h : Lexed s prev last seen tokens) (ht : t ∈ tokens)
    (halone : standsAlone t.kind = true) : ∃ exprAllowed, Lexeme exprAllowed t.kind t.value := by
  cases h.streamItem ht with
  | comment htext =>
    rcases htext with ⟨hkind, -⟩ | ⟨hkind, -⟩
    all_goals
      rw [hkind] at halone
      cases halone
  | delimiter hp hkind => obtain rfl | rfl := hp <;> (rw [hkind] at halone; cases halone)
  | lexeme hlexeme => exact ⟨_, hlexeme⟩
  | chunk hkind | eof hkind =>
    rw [hkind] at halone
    cases halone

/-- Only a slash is taken differently where an expression may start. -/
theorem Lexeme.ofStart {exprAllowed : Bool} {kind : Kind} {value : Bytes}
    (h : Lexeme exprAllowed kind value) (halone : standsAlone kind = true) :
    Lexeme true kind value := by
  cases h with
  | word h => exact .word h
  | privateName h => exact .privateName h
  | number hstart hread hgs hdec => exact .number hstart hread hgs hdec
  | string h => exact .string h
  | regexp _ hslash hstar hslashes hread hgs hdec =>
    exact .regexp rfl hslash hstar hslashes hread hgs hdec
  | punct hp _ =>
    refine .punct hp ?_
    rintro (rfl | rfl) <;> cases halone

/-- Nothing runs into a text with nothing behind it. -/
theorem separated_nil (kind : Kind) : Separated kind [] := by
  have hstops : ∀ p : Char → Bool, Cursor.Stops p (Utf8.glyphs []) := by
    intro p g hg
    rw [Utf8.glyphs_nil] at hg
    cases hg
  cases kind with
  | string => exact trivial
  | punct p => exact hstops _
  | num => exact ⟨Utf8.fresh_nil, hstops _, hstops _⟩
  | regexp => exact ⟨Utf8.fresh_nil, hstops _⟩
  | _ => exact ⟨hstops _, hstops _⟩

/-- **The text of a token is a source with that token only.** The token has the kind and the value
of the one that was written, starts with the text and ends with it; the end of the source follows.
Left out are tokens that do not stand alone, and strings whose surrogates would be joined. -/
theorem tokenize_text {source : Bytes} {tokens : List Token} {t : Token}
    (h : tokenize source = .ok tokens) (ht : t ∈ tokens) (halone : standsAlone t.kind = true)
    (hpair : t.kind = .string → ¬ HasSurrogatePair t.value) :
    ∃ stop : Position, stop.offset = t.text.length
      ∧ tokenize t.text = .ok [⟨t.kind, t.value, ⟨1, 0, 0⟩, stop⟩, ⟨.eof, [], stop, stop⟩] := by
  obtain ⟨exprAllowed, hlexeme⟩ : ∃ exprAllowed, Lexeme exprAllowed t.kind t.value := by
    cases tokenize_lexed h with
    | plain hlexed => exact hlexed.lexeme ht halone
    | hashbang hkind _ hlexed =>
      rcases List.mem_cons.mp ht with rfl | ht
      · rw [hkind] at halone
        cases halone
      · exact hlexed.lexeme ht halone
  have hread := readsAs_text (hlexeme.ofStart halone) hpair (separated_nil t.kind)
  refine tokenize_alone hread hlexeme.ordinary.2.1 ?_
  intro hquote
  rw [hquote] at halone
  cases halone

/-- A reserved word that is spelled with an escape is written without it. -/
theorem tokenize_text_escapedWord :
    tokenize (utf8 "\\u0069f") = .ok [⟨.keyword .ifKw, utf8 "if", ⟨1, 0, 0⟩, ⟨1, 7, 7⟩⟩,
        ⟨.eof, [], ⟨1, 7, 7⟩, ⟨1, 7, 7⟩⟩]
      ∧ ∃ stop : Position, stop.offset = 2 ∧ tokenize (utf8 "if") =
        .ok [⟨.keyword .ifKw, utf8 "if", ⟨1, 0, 0⟩, stop⟩, ⟨.eof, [], stop, stop⟩] := by
  have h : tokenize (utf8 "\\u0069f") = .ok [⟨.keyword .ifKw, utf8 "if", ⟨1, 0, 0⟩, ⟨1, 7, 7⟩⟩,
      ⟨.eof, [], ⟨1, 7, 7⟩, ⟨1, 7, 7⟩⟩] := by decide +kernel
  exact ⟨h, tokenize_text h List.mem_cons_self rfl Kind.noConfusion⟩

end ScriptTidy.Scanner
