import ScriptTidy.Proofs.Markup.ScriptTexts

/-!
# What is written for a document

A document is copied token by token, with each script replaced by what it is formatted to. Nothing
is lost or written twice on the way, so that every token is met at its own offset. How a document
is split into tokens plays no part: all of this holds for tokens that are given.

* `Copied` : an output, token by token.
* `copied_of_run` : a whole run.
* `formatDocument_copies` : what is written for a document.
-/

namespace ScriptTidy

open Markup (MarkupToken IsScript ScriptIn insideAfter insideAfter_concat isScriptText_iff)

/-- `out` is written for the tokens, with `scripts` of them formatted. A token that is no script is
written as it is. A script is formatted behind a line feed; that it is formatted for its place in
the document and in the output does not change its text. -/
inductive Copied (o : Options) (document : Bytes) :
    (tokens : List MarkupToken) → (out : Bytes) → (scripts : Nat) → Prop
  | nil : Copied o document [] [] 0
  | token {before out scripts t} (hbefore : Copied o document before out scripts)
    (ht : ¬ IsScript before t) : Copied o document (before ++ [t]) (out ++ t.raw) scripts
  | script {before out scripts t f g} (hbefore : Copied o document before out scripts)
    (ht : IsScript before t) (hf : format { o with leadingNewline := true } t.raw = .ok f)
    (hg : format (embeddedOptions o document (before.flatMap (·.raw)) out) t.raw = .ok g)
    (hcode : g.code = f.code) :
    Copied o document (before ++ [t]) (out ++ f.code) (scripts + 1)

/-- Without scripts, every token is written as it is. -/
theorem Copied.eq_raw {o : Options} {document out : Bytes} {tokens : List MarkupToken}
    {scripts : Nat} (h : Copied o document tokens out scripts)
    (hnone : ∀ before t behind, ¬ ScriptIn tokens before t behind) :
    out = tokens.flatMap (·.raw) ∧ scripts = 0 := by
  induction h with
  | nil => exact ⟨rfl, rfl⟩
  | @token before out scripts t _ _ ih =>
    obtain ⟨rfl, rfl⟩ := ih fun front u behind hu => hnone _ _ _ (hu.append [t])
    rw [List.flatMap_append, List.flatMap_singleton]
    exact ⟨rfl, rfl⟩
  | script _ ht => exact absurd ⟨rfl, ht⟩ (hnone _ _ [])

/-- The text of a script does not depend on where it is written. -/
theorem format_code {o o' : Options} {source : Bytes} {f : Formatted}
    (h : format o source = .ok f) (hindent : o'.indent = o.indent)
    (hleading : o'.leadingNewline = o.leadingNewline) :
    ∃ f', format o' source = .ok f' ∧ f'.code = f.code := by
  unfold format at h ⊢
  split at h
  next tokens _ =>
    cases h
    refine ⟨_, rfl, ?_⟩
    unfold formatTokens
    dsimp only
    rw [hindent, hleading]
  next => cases h

namespace InlineScript

variable {o : Options} {lines : LineMap} {document done out : Bytes} {p q : Progress}
  {inside : Bool} {t : MarkupToken} {tokens before behind : List MarkupToken}

/-- **Copying is what a run does**, with its state at every token. -/
theorem copied_of_run (h : (run o (LineMap.ofText document) {} tokens).1 = .ok p) :
    ∃ out, Copied o document tokens out p.scripts
      ∧ p.Tracks (insideAfter tokens) (tokens.flatMap (·.raw)) out := by
  induction tokens using List.reverseRecOn generalizing p with
  | nil =>
    cases h
    exact ⟨[], .nil, rfl, rfl, rfl, rfl⟩
  | append_singleton before t ih =>
    obtain ⟨q, hrun, hpast⟩ := exists_of_run_concat h
    obtain ⟨out, hcopied, htracks⟩ := ih hrun
    rw [insideAfter_concat, List.flatMap_append, List.flatMap_singleton]
    rcases past_eq_ok htracks hpast with
      ⟨ht, hscripts, -, htracks⟩ | ⟨g, ht, hscripts, -, hg, htracks⟩
    · rw [hscripts]
      refine ⟨_, .token hcopied fun hs => ?_, htracks⟩
      rw [isScriptText_iff.mpr hs] at ht
      cases ht
    · rw [hscripts]
      obtain ⟨f, hf, hcode⟩ : ∃ f, format { o with leadingNewline := true } t.raw = .ok f
          ∧ f.code = g.code := format_code hg rfl rfl
      rw [← hcode] at htracks
      exact ⟨_, .script hcopied (isScriptText_iff.mp ht) hf hg hcode.symm, htracks⟩

/-- A run goes on as long as every script can be scanned. -/
theorem exists_run (o : Options) (document : Bytes)
    (h : ∀ front t rest, ScriptIn tokens front t rest → ∃ ts, tokenize t.raw = .ok ts) :
    ∃ p, (run o (LineMap.ofText document) {} tokens).1 = .ok p := by
  induction tokens using List.reverseRecOn with
  | nil => exact ⟨_, rfl⟩
  | append_singleton before t ih =>
    obtain ⟨p, hp⟩ := ih fun front u rest hu => h _ _ _ (hu.append [t])
    obtain ⟨_, -, htracks⟩ := copied_of_run hp
    rw [run_concat, hp]
    refine exists_past p o _ fun ht => h before t [] ⟨rfl, isScriptText_iff.mp ?_⟩
    rwa [← htracks.inside_eq]

/-- A run that is accepted comes to every token at its offset. -/
theorem exists_run_before (h : (run o (LineMap.ofText document) {} (before ++ tokens)).1 = .ok q) :
    ∃ p, (run o (LineMap.ofText document) {} before).1 = .ok p
      ∧ (run o (LineMap.ofText document) p tokens).1 = .ok q
      ∧ p.offset = (before.flatMap (·.raw)).length := by
  obtain ⟨p, hp, hq⟩ := exists_of_run_append h
  obtain ⟨_, -, htracks⟩ := copied_of_run hp
  exact ⟨p, hp, hq, htracks.offset_eq⟩

end InlineScript

/-! ## Documents -/

section Document

variable {o : Options} {document : Bytes} {tokens : List MarkupToken} {f : FormattedDocument}

open InlineScript (run exists_run copied_of_run exists_run_before)

theorem copied_of_formatSplit (h : (formatSplit o document tokens).1 = .ok f) :
    Copied o document tokens f.code f.scripts := by
  obtain ⟨q, hq, hcode, hscripts, -⟩ := exists_run_of_formatSplit h
  obtain ⟨out, hcopied, htracks⟩ := copied_of_run hq
  rwa [← hcode, ← hscripts, htracks.written_eq]

/-- A document without scripts is accepted. -/
theorem exists_formatSplit (o : Options) (document : Bytes)
    (h : ∀ before t behind, ¬ ScriptIn tokens before t behind) :
    ∃ f, (formatSplit o document tokens).1 = .ok f := by
  obtain ⟨p, hp⟩ : ∃ p, (run o (LineMap.ofText document) {} tokens).1 = .ok p :=
    exists_run o document fun before t behind ht => absurd ht (h before t behind)
  rw [formatSplit_fst, hp]
  exact ⟨_, rfl⟩

/-- **Everything outside scripts is copied.** Whatever the tokens whose texts make up the document:
if it is accepted, its text is that of the tokens with each script replaced by what it is formatted
to, the scripts are counted, and the run comes to every token at the length of the texts before
it. A document without scripts is accepted and returned as it is. The tokens that documents are
split into are such tokens. -/
theorem formatDocument_copies (o : Options) (document : Bytes) :
    formatDocument o document = formatSplit o document (Markup.tokens document)
      ∧ (Markup.tokens document).flatMap (·.raw) = document
      ∧ ∀ tokens : List MarkupToken, tokens.flatMap (·.raw) = document →
        (∀ f, (formatSplit o document tokens).1 = .ok f →
          Copied o document tokens f.code f.scripts
            ∧ ∀ before t behind, tokens = before ++ t :: behind →
              ∃ p q, (run o (LineMap.ofText document) {} before).1 = .ok p
                ∧ p.offset = (before.flatMap (·.raw)).length
                ∧ (run o (LineMap.ofText document) p (t :: behind)).1 = .ok q
                ∧ q.written.reverse.flatten = f.code)
        ∧ ((∀ before t behind, ¬ ScriptIn tokens before t behind) →
          ∃ f, (formatSplit o document tokens).1 = .ok f ∧ f.code = document ∧ f.scripts = 0) := by
  refine ⟨rfl, Markup.raw_tokens document, fun tokens hraw => ⟨fun f hf => ?_, fun hnone => ?_⟩⟩
  · refine ⟨copied_of_formatSplit hf, ?_⟩
    rintro before t behind rfl
    obtain ⟨q, hq, hcode, -⟩ := exists_run_of_formatSplit hf
    obtain ⟨p, hp, hrest, hoffset⟩ := exists_run_before hq
    exact ⟨p, q, hp, hoffset, hrest, hcode⟩
  · obtain ⟨f, hf⟩ := exists_formatSplit o document hnone
    obtain ⟨hcode, hscripts⟩ := (copied_of_formatSplit hf).eq_raw hnone
    exact ⟨f, hf, hcode.trans hraw, hscripts⟩

/-- A script with a source and one of another name for a type that is formatted. -/
def sampleSkipped : Bytes := utf8 "<script src=x>a</script><script type=Module;x>a+b</script>"

/-- No script, but the name of one. -/
def samplePlain : Bytes := utf8 "<p title='<script>'>a</p>"

theorem formatDocument_copies_samples :
    (∃ f, (formatDocument { indent := [0x20] } sampleSkipped).1 = .ok f
        ∧ f.code = utf8 "<script src=x>a</script><script type=Module;x>\na + b\n</script>"
        ∧ Copied { indent := [0x20] } sampleSkipped (Markup.tokens sampleSkipped) f.code 1)
      ∧ ∃ f, (formatDocument { indent := [0x20] } samplePlain).1 = .ok f
        ∧ f.code = samplePlain := by
  refine ⟨?_, ?_⟩
  · have hresult : ((formatDocument { indent := [0x20] } sampleSkipped).1.toOption.any fun f =>
        f.scripts == 1 && f.code == utf8
          "<script src=x>a</script><script type=Module;x>\na + b\n</script>") = true := by
      decide +kernel
    obtain ⟨heq, hraw, hall⟩ := formatDocument_copies { indent := [0x20] } sampleSkipped
    cases hf : (formatDocument { indent := [0x20] } sampleSkipped).1 with
    | error e =>
      rw [hf] at hresult
      cases hresult
    | ok f =>
      rw [hf] at hresult
      obtain ⟨hscripts, hcode⟩ := Bool.and_eq_true_iff.mp hresult
      rw [heq] at hf
      refine ⟨f, rfl, eq_of_beq hcode, ?_⟩
      have hcopied := (((hall _ hraw).1 f hf)).1
      rwa [eq_of_beq hscripts] at hcopied
  · obtain ⟨heq, hraw, hall⟩ := formatDocument_copies { indent := [0x20] } samplePlain
    have hnone : ∀ i < (Markup.tokens samplePlain).length, ∀ t ∈ (Markup.tokens samplePlain)[i]?,
        ¬ IsScript ((Markup.tokens samplePlain).take i) t := by
      decide +kernel
    obtain ⟨f, hf, hcode, -⟩ := (hall _ hraw).2 fun before t behind ⟨hsplit, hscript⟩ => by
      have ht := hnone before.length (by rw [hsplit, List.length_append, List.length_cons]; omega)
        t (by rw [hsplit, List.getElem?_append_right (Nat.le_refl _), Nat.sub_self]; rfl)
      rw [hsplit, List.take_left] at ht
      exact ht hscript
    rw [heq]
    exact ⟨f, hf, hcode⟩

end Document

end ScriptTidy
