import ScriptTidy.Proofs.LineMap.Extension
import ScriptTidy.Proofs.Markup.Copying
import ScriptTidy.Proofs.Scanner.ErrorPlaces

/-!
# Errors in scripts

A script is scanned on its own, and an error in it is reported where it lies in the document. The
position is moved without a look at the document: only the first line of the script starts in the
middle of a line. That this agrees with the table of lines of the whole document takes that a
script starts right behind a closing angle bracket, but nothing about its end. What follows the
script can go on with its last character or its last line end, and errors are reported in front of
these.

* `locates_shiftPosition` : where an error in a part of a document lies.
* `run_eq_error` : the first script that cannot be scanned.
* `formatDocument_scriptError` : the error of a document.
-/

namespace ScriptTidy

open Markup (MarkupToken IsScript ScriptIn isScriptText_iff insideAfter)

/-! ## The place of an error -/

namespace LineMap

variable {done body behind : Bytes} {p : Position}

/-- An error in a part of a text lies in front of what can go on with the part. -/
theorem liesIn_of_errorPlace (h : Scanner.ErrorPlace body p) :
    LiesIn 0 p.offset.toNat body behind := by
  obtain ⟨d, ⟨gs, hgs⟩, rfl, hend⟩ := h
  have hoffset := hgs.offset_eq_length
  have hglyphs : Utf8.glyphs body = gs ++ d.rest := hgs.rest_eq
  have hbody : (gs.flatMap (·.bytes)).length + (d.rest.flatMap (·.bytes)).length
      = body.length := by
    rw [← List.length_append, ← List.flatMap_append, ← hglyphs, Utf8.bytes_glyphs]
  show LiesIn 0 d.offset body behind
  unfold LiesIn
  cases hrest : d.rest with
  | nil =>
    rw [hrest, List.flatMap_nil, List.length_nil] at hbody
    exact .inr ⟨by omega, fun hlast => absurd hlast (hend hrest)⟩
  | cons g rest =>
    have hg : g.bytes ≠ [] := (Utf8.isDecoding_glyphs body).bytes_ne_nil g (by
      rw [hglyphs, hrest]
      exact List.mem_append_right _ List.mem_cons_self)
    rw [hrest, List.flatMap_cons, List.length_append] at hbody
    have hpos := List.length_pos_of_ne_nil hg
    exact .inl (by omega)

/-- **The place of an error.** What is reported for an error in a part of a text is what the table
of lines of the text finds. -/
theorem locates_shiftPosition (hlast : done.getLast? = some 0x3E) (hne : body ≠ [])
    (hp : Scanner.ErrorPlace body p) :
    (ofText (done ++ body ++ behind)).Locates (InlineScript.shiftPosition p
      ⟨((ofText (done ++ body ++ behind)).lineColumn done.length).1 + 1,
        ((ofText (done ++ body ++ behind)).lineColumn done.length).2, done.length⟩) := by
  have hshows : (Cursor.ofSource body).Shows p := by
    obtain ⟨d, hd, hpos, -⟩ := hp
    exact ⟨d, hd, hpos⟩
  obtain ⟨-, hnonneg, -⟩ := locates_of_shows hshows
  -- the part at the end of a text that nothing follows
  have hpart : ScriptAt (done ++ body) done body [] :=
    ⟨(List.append_nil _).symm, hlast, fun b hb => by cases hb⟩
  obtain ⟨hline, hcolumn⟩ := hpart.lineColumn_shows hshows
  have hstart : (ofText (done ++ body ++ behind)).lineColumn (done.length : Int)
      = (ofText (done ++ body)).lineColumn (done.length : Int) := by
    refine lineColumn_append (.inl ?_)
    have hpos := List.length_pos_of_ne_nil hne
    rw [List.length_append]
    omega
  have hplace : (ofText (done ++ body ++ behind)).lineColumn (done.length + p.offset)
      = (ofText (done ++ body)).lineColumn (done.length + p.offset) := by
    have hcast : ((done.length + p.offset.toNat : Nat) : Int) = done.length + p.offset := by
      omega
    rw [← hcast]
    exact lineColumn_append ((liesIn_of_errorPlace hp).prepend hne done)
  rw [← hstart, ← hplace] at hline hcolumn
  have hoffset : p.offset + (done.length : Int) = done.length + p.offset := Int.add_comm _ _
  unfold Locates InlineScript.shiftPosition
  dsimp only
  rw [hoffset, hcolumn]
  refine ⟨by omega, ?_⟩
  split <;> omega

end LineMap

/-! ## The first error -/

/-- Every script in front of the last tokens can be scanned. -/
def ScannedBefore (tokens before : List MarkupToken) : Prop :=
  ∀ front u rest, ScriptIn tokens front u rest → front.length < before.length →
    ∃ ts, tokenize u.raw = .ok ts

variable {o : Options} {document : Bytes} {tokens before behind : List MarkupToken}
  {t : MarkupToken} {e : LexError}

/-- If a script cannot be scanned, then there is a first one. -/
theorem exists_first_error (h : ScriptIn tokens before t behind) (he : tokenize t.raw = .error e) :
    ∃ before t behind e, ScriptIn tokens before t behind ∧ tokenize t.raw = .error e
      ∧ ScannedBefore tokens before := by
  induction hn : before.length using Nat.strong_induction_on generalizing before t behind e with
  | _ n ih =>
    subst hn
    by_cases hall : ScannedBefore tokens before
    · exact ⟨before, t, behind, e, h, he, hall⟩
    · unfold ScannedBefore at hall
      push Not at hall
      obtain ⟨front, u, rest, hu, hlt, hnone⟩ := hall
      cases hf : tokenize u.raw with
      | ok ts => exact absurd hf (hnone ts)
      | error f => exact ih front.length hlt hu hf rfl

namespace InlineScript

/-- What is reported for an error in the script behind the tokens `before`. -/
def reportedError (document : Bytes) (before : List MarkupToken) (e : LexError) :
    PositionedError where
  pos := shiftPosition e.pos
    ⟨((LineMap.ofText document).lineColumn (before.flatMap (·.raw)).length).1 + 1,
      ((LineMap.ofText document).lineColumn (before.flatMap (·.raw)).length).2,
      (before.flatMap (·.raw)).length⟩
  message := e.fault.message

/-- A script that cannot be scanned ends a run. -/
theorem past_eq_error {p : Progress} {out : Bytes}
    (hp : p.Tracks (insideAfter before) (before.flatMap (·.raw)) out) (ht : IsScript before t)
    (he : tokenize t.raw = .error e) : ∃ f, p.past o (LineMap.ofText document) t = .error f
      ∧ f.cause = .positioned (reportedError document before e) := by
  have hscript : isScriptText p.inside t = true := by
    rw [hp.inside_eq]
    exact isScriptText_iff.mpr ht
  unfold Progress.past
  rw [hscript, if_pos rfl]
  unfold Progress.script format
  dsimp only
  rw [he]
  refine ⟨_, rfl, ?_⟩
  unfold Progress.start
  rw [hp.offset_eq]
  rfl

/-- **The first script that cannot be scanned ends the run** with its error. -/
theorem run_eq_error (h : ScriptIn tokens before t behind) (he : tokenize t.raw = .error e)
    (hfirst : ScannedBefore tokens before) :
    ∃ f, (run o (LineMap.ofText document) {} tokens).1 = .error f
      ∧ f.cause = .positioned (reportedError document before e) := by
  obtain ⟨rfl, ht⟩ := h
  obtain ⟨p, hp⟩ : ∃ p, (run o (LineMap.ofText document) {} before).1 = .ok p := by
    refine exists_run o document ?_
    intro front u rest hu
    refine hfirst _ _ _ (hu.append (t :: behind)) ?_
    rw [hu.tokens_eq, List.length_append, List.length_cons]
    omega
  obtain ⟨_, -, htracks⟩ := copied_of_run hp
  obtain ⟨f, hf, hcause⟩ := past_eq_error htracks ht he
  refine ⟨f, ?_, hcause⟩
  rw [run_append, hp]
  show (run o (LineMap.ofText document) p (t :: behind)).1 = _
  rw [run_cons, hf]
  rfl

end InlineScript

/-! ## Documents -/

/-- Every script starts right behind a closing angle bracket. -/
def ScriptsBehindTags (tokens : List MarkupToken) : Prop :=
  ∀ before t behind, ScriptIn tokens before t behind →
    (before.flatMap (·.raw)).getLast? = some 0x3E

open InlineScript (opensAfter) in
theorem delimited_behind {inside : Bool} {done : Bytes}
    (h : Markup.Delimited inside done (before ++ t :: behind)) :
    Markup.Delimited (before.foldl (fun inside u => opensAfter inside u.kind) inside)
      (done ++ before.flatMap (·.raw)) (t :: behind) := by
  induction before generalizing inside done with
  | nil =>
    rw [List.flatMap_nil, List.append_nil]
    exact h
  | cons u rest ih =>
    have hrest := ih h.2
    rwa [List.append_assoc, ← List.flatMap_cons] at hrest

theorem scriptsBehindTags_tokens (document : Bytes) :
    ScriptsBehindTags (Markup.tokens document) := by
  rintro before t behind ⟨heq, ht⟩
  have hdelimited := Markup.delimited_tokens document
  rw [heq] at hdelimited
  exact ((delimited_behind hdelimited).1 (isScriptText_iff.mpr ht)).1

/-- **Errors in scripts are reported at their place in the document.** Whatever the tokens whose
texts make up the document, with scripts right behind closing angle brackets: if some script cannot
be scanned, then the document fails with the error of the first of these, at the place of the
document where it lies. The tokens that documents are split into are such tokens. -/
theorem formatDocument_scriptError (o : Options) (document : Bytes) :
    formatDocument o document = formatSplit o document (Markup.tokens document)
      ∧ (Markup.tokens document).flatMap (·.raw) = document
      ∧ ScriptsBehindTags (Markup.tokens document)
      ∧ ∀ tokens : List MarkupToken, tokens.flatMap (·.raw) = document → ScriptsBehindTags tokens →
        (∃ before t behind e, ScriptIn tokens before t behind ∧ tokenize t.raw = .error e) →
        ∃ before t behind e f pos, ScriptIn tokens before t behind ∧ tokenize t.raw = .error e
          ∧ ScannedBefore tokens before
          ∧ (formatSplit o document tokens).1 = .error f
          ∧ f.cause = .positioned ⟨pos, e.fault.message⟩
          ∧ pos.offset = (before.flatMap (·.raw)).length + e.pos.offset
          ∧ (LineMap.ofText document).Locates pos := by
  refine ⟨rfl, Markup.raw_tokens document, scriptsBehindTags_tokens document, ?_⟩
  rintro tokens hraw hscripts ⟨_, _, _, _, hscript, herror⟩
  obtain ⟨before, t, behind, e, hin, he, hfirst⟩ := exists_first_error hscript herror
  obtain ⟨f, hf, hcause⟩ := InlineScript.run_eq_error (o := o) hin he hfirst
  have hdocument : document = before.flatMap (·.raw) ++ t.raw ++ behind.flatMap (·.raw) := by
    rw [← hraw, hin.tokens_eq, List.flatMap_append, List.flatMap_cons, List.append_assoc]
  refine ⟨before, t, behind, e, f, _, hin, he, hfirst, ?_, hcause, Int.add_comm _ _, ?_⟩
  · rw [formatSplit_fst, hf]
    rfl
  · show (LineMap.ofText document).Locates (InlineScript.reportedError document before e).pos
    have hlast := hscripts before t behind hin
    unfold InlineScript.reportedError
    rw [hdocument]
    exact LineMap.locates_shiftPosition hlast hin.isScript.raw_ne_nil
      (Scanner.tokenize_error_place he)

/-- The second script of the line does not scan. -/
def sampleBroken : Bytes := utf8 "é<script>a</script>😀<script>b @</script>"

theorem formatDocument_scriptError_sample :
    ∃ f pos message, (formatDocument { indent := [0x20] } sampleBroken).1 = .error f
      ∧ f.cause = .positioned ⟨pos, message⟩
      ∧ message = utf8 "unexpected character '@'" ∧ pos = ⟨1, 31, 34⟩
      ∧ (LineMap.ofText sampleBroken).Locates pos := by
  obtain ⟨heq, hraw, hscripts, hall⟩ :=
    formatDocument_scriptError { indent := [0x20] } sampleBroken
  have hin : ScriptIn (Markup.tokens sampleBroken) ((Markup.tokens sampleBroken).take 6)
      ⟨.text, utf8 "b @"⟩ ((Markup.tokens sampleBroken).drop 7) :=
    ⟨by decide +kernel, by decide +kernel⟩
  have he : tokenize (utf8 "b @") = .error ⟨⟨1, 2, 2⟩, .unexpectedCharacter '@'⟩ := by
    decide +kernel
  obtain ⟨_, _, _, _, f, pos, -, -, -, hf, hcause, -, hplace⟩ :=
    hall _ hraw hscripts ⟨_, _, _, _, hin, he⟩
  rw [← heq] at hf
  have hresult : (match (formatDocument { indent := [0x20] } sampleBroken).1 with
      | .ok _ => none
      | .error f => f.positioned?) = some ⟨⟨1, 31, 34⟩, utf8 "unexpected character '@'"⟩ := by
    decide +kernel
  rw [hf] at hresult
  dsimp only at hresult
  rw [Failure.positioned?, hcause] at hresult
  obtain ⟨hpos, hmessage⟩ := PositionedError.mk.inj (Option.some.inj hresult)
  exact ⟨f, _, _, hf, hcause, hmessage, hpos, hplace⟩

end ScriptTidy
