import ScriptTidy.Markup.InlineScript

/-!
# Runs over the tokens of a document

A document is formatted token by token, with a state that is taken from each token to the next. All
that matters of the state is told by the part of the document that was read and by the output that
was written for it: where the next token lies, which line is written next, and whether a text would
be a script.

* `Progress.Tracks` : the state behind a part of a document and its output.
* `past_eq_ok` : what one token does to the state and to the output.
* `run_cons`, `run_concat` : a run is one token after the other, seen from either end.
* `exists_of_run_cons`, `exists_of_run_concat` : the same for runs that are accepted.
* `exists_run_of_formatSplit` : a document that is accepted is the end of a run.
-/

namespace ScriptTidy

open Markup (MarkupToken)

/-- The options for a script that stands behind `done` in the document and is written behind
`out`. -/
def embeddedOptions (o : Options) (document done out : Bytes) : Options :=
  InlineScript.scriptOptions o
    ⟨((LineMap.ofText document).lineColumn done.length).1 + 1,
      ((LineMap.ofText document).lineColumn done.length).2, done.length⟩ (1 + out.count 0x0A)

namespace InlineScript

variable {o : Options} {lines : LineMap} {document done out : Bytes} {p q : Progress}
  {inside : Bool} {t : MarkupToken}

/-! ## The state of a run -/

/-- The state of a run that has read `done` and written `out`. -/
structure Progress.Tracks (p : Progress) (inside : Bool) (done out : Bytes) : Prop where
  inside_eq : p.inside = inside
  offset_eq : p.offset = done.length
  line_eq : p.line = 1 + out.count 0x0A
  written_eq : p.written.reverse.flatten = out

theorem Progress.Tracks.write (h : p.Tracks inside done out) (text : Bytes) :
    (p.write text).written.reverse.flatten = out ++ text
      ∧ (p.write text).line = 1 + (out ++ text).count 0x0A := by
  refine ⟨?_, ?_⟩
  · show (text :: p.written).reverse.flatten = _
    rw [List.reverse_cons, List.flatten_append, h.written_eq, List.flatten_singleton]
  · show p.line + text.count 0x0A = _
    rw [h.line_eq, List.count_append, Nat.add_assoc]

/-- The options for a script where the run has come to. -/
theorem Progress.Tracks.scriptOptions_eq (hp : p.Tracks inside done out) :
    scriptOptions o (p.start (LineMap.ofText document)) p.line
      = embeddedOptions o document done out := by
  unfold Progress.start
  rw [hp.offset_eq, hp.line_eq]
  rfl

/-! ## One token -/

/-- One token of a run. -/
def Progress.past (p : Progress) (o : Options) (lines : LineMap) (t : MarkupToken) :
    Except Failure Progress :=
  (if isScriptText p.inside t then (p.script o lines t.raw).1 else .ok (p.write t.raw)).map
    fun q => { q with offset := q.offset + t.raw.length, inside := opensAfter q.inside t.kind }

/-- **What a token does.** -/
theorem past_eq_ok (hp : p.Tracks inside done out)
    (h : p.past o (LineMap.ofText document) t = .ok q) :
    (isScriptText inside t = false ∧ q.scripts = p.scripts ∧ q.mappings = p.mappings
        ∧ q.Tracks (opensAfter inside t.kind) (done ++ t.raw) (out ++ t.raw))
      ∨ ∃ g, isScriptText inside t = true ∧ q.scripts = p.scripts + 1
        ∧ q.mappings = p.mappings ++ g.mappings
        ∧ format (embeddedOptions o document done out) t.raw = .ok g
        ∧ q.Tracks (opensAfter inside t.kind) (done ++ t.raw) (out ++ g.code) := by
  have hoffset : p.offset + t.raw.length = (done ++ t.raw).length := by
    rw [hp.offset_eq, List.length_append]
  have hinside : opensAfter p.inside t.kind = opensAfter inside t.kind := by rw [hp.inside_eq]
  unfold Progress.past at h
  rw [hp.inside_eq] at h
  cases ht : isScriptText inside t with
  | false =>
    rw [ht, if_neg Bool.false_ne_true] at h
    cases h
    obtain ⟨hflat, hline⟩ := hp.write t.raw
    exact .inl ⟨rfl, rfl, rfl, hinside, hoffset, hline, hflat⟩
  | true =>
    rw [ht, if_pos rfl] at h
    unfold Progress.script at h
    dsimp only at h
    rw [hp.scriptOptions_eq] at h
    split at h
    next g hg =>
      cases h
      obtain ⟨hflat, hline⟩ := hp.write g.code
      exact .inr ⟨g, rfl, rfl, rfl, hg, hinside, hoffset, hline, hflat⟩
    next => cases h

/-- A token that is no script is always accepted, and a script is if it can be scanned. -/
theorem exists_past (p : Progress) (o : Options) (lines : LineMap)
    (ht : isScriptText p.inside t = true → ∃ ts, tokenize t.raw = .ok ts) :
    ∃ q, p.past o lines t = .ok q := by
  unfold Progress.past
  cases hscript : isScriptText p.inside t with
  | false => exact ⟨_, rfl⟩
  | true =>
    obtain ⟨ts, hts⟩ := ht hscript
    rw [if_pos rfl]
    unfold Progress.script format
    dsimp only
    rw [hts]
    exact ⟨_, rfl⟩

/-! ## Runs -/

theorem run_cons (o : Options) (lines : LineMap) (p : Progress) (t : MarkupToken)
    (rest : List MarkupToken) :
    (run o lines p (t :: rest)).1 = (p.past o lines t).bind fun q => (run o lines q rest).1 := by
  rw [run]
  unfold Progress.past
  dsimp only
  cases isScriptText p.inside t with
  | false => rfl
  | true =>
    rw [if_pos rfl, if_pos rfl]
    split
    next q _ hq =>
      rw [hq]
      rfl
    next f _ hf =>
      rw [hf]
      rfl

theorem run_append (o : Options) (lines : LineMap) (p : Progress)
    (before tokens : List MarkupToken) : (run o lines p (before ++ tokens)).1
      = (run o lines p before).1.bind fun q => (run o lines q tokens).1 := by
  induction before generalizing p with
  | nil => rfl
  | cons t rest ih =>
    rw [List.cons_append, run_cons, run_cons]
    cases p.past o lines t with
    | error f => rfl
    | ok q => exact ih q

theorem run_concat (o : Options) (lines : LineMap) (p : Progress) (before : List MarkupToken)
    (t : MarkupToken) : (run o lines p (before ++ [t])).1
      = (run o lines p before).1.bind fun q => q.past o lines t := by
  rw [run_append]
  congr 1
  funext q
  rw [run_cons]
  cases q.past o lines t with
  | error f => rfl
  | ok r => rfl

/-! ## Runs that are accepted -/

/-- A chain of two steps is accepted if both are. -/
theorem exists_of_bind_eq_ok {α β : Type} {x : Except Failure α} {f : α → Except Failure β} {b : β}
    (h : x.bind f = .ok b) : ∃ a, x = .ok a ∧ f a = .ok b := by
  cases x with
  | error e => cases h
  | ok a => exact ⟨a, rfl, h⟩

theorem exists_of_run_cons {rest : List MarkupToken} (h : (run o lines p (t :: rest)).1 = .ok q) :
    ∃ p', p.past o lines t = .ok p' ∧ (run o lines p' rest).1 = .ok q := by
  rw [run_cons] at h
  exact exists_of_bind_eq_ok h

theorem exists_of_run_append {before tokens : List MarkupToken}
    (h : (run o lines p (before ++ tokens)).1 = .ok q) :
    ∃ p', (run o lines p before).1 = .ok p' ∧ (run o lines p' tokens).1 = .ok q := by
  rw [run_append] at h
  exact exists_of_bind_eq_ok h

theorem exists_of_run_concat {before : List MarkupToken}
    (h : (run o lines p (before ++ [t])).1 = .ok q) :
    ∃ p', (run o lines p before).1 = .ok p' ∧ p'.past o lines t = .ok q := by
  rw [run_concat] at h
  exact exists_of_bind_eq_ok h

end InlineScript

/-! ## Documents -/

section Document

variable {o : Options} {document : Bytes} {tokens : List MarkupToken} {f : FormattedDocument}

open InlineScript (run)

theorem formatSplit_fst (o : Options) (document : Bytes) (tokens : List MarkupToken) :
    (formatSplit o document tokens).1 = (run o (LineMap.ofText document) {} tokens).1.map
      fun p => ⟨p.written.reverse.flatten, p.scripts, p.mappings⟩ := by
  unfold formatSplit
  split
  next p _ hp => rw [hp]; rfl
  next f _ hf => rw [hf]; rfl

/-- A document that is accepted is the end of a run. -/
theorem exists_run_of_formatSplit (h : (formatSplit o document tokens).1 = .ok f) :
    ∃ q, (run o (LineMap.ofText document) {} tokens).1 = .ok q
      ∧ q.written.reverse.flatten = f.code ∧ q.scripts = f.scripts
      ∧ q.mappings = f.mappings := by
  rw [formatSplit_fst] at h
  cases hq : (run o (LineMap.ofText document) {} tokens).1 with
  | error e =>
    rw [hq] at h
    cases h
  | ok q =>
    rw [hq] at h
    cases h
    exact ⟨q, rfl, rfl, rfl, rfl⟩

end Document

end ScriptTidy
