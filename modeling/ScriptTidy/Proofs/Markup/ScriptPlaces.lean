import ScriptTidy.Proofs.Layout.Mappings
import ScriptTidy.Proofs.Markup.Runs
import ScriptTidy.Proofs.Markup.Segments
import ScriptTidy.Proofs.Scanner.Positions

/-!
# Places in a document with scripts

A script is scanned and formatted on its own, with the place of its first character given as an
offset. Its mappings nevertheless tie places of the whole output to places of the whole document.
On the way in, a cursor in the script runs along with a cursor in the document: the script is
delimited, so that no character and no line end goes across its ends. On the way out, the script
is written behind a line feed, so that the columns of its text are those of the output.

* `Shifted` : a cursor in a script beside the cursor in the document.
* `DocumentWritten` : an output with its mappings, token by token.
* `formatDocument_written` : what is written for a document that is accepted, whatever its tokens.
-/

namespace ScriptTidy

open Scanner

/-! ## On the way in -/

namespace Cursor

/-- The cursor `d` in a part of a text and the cursor `e` at the same place in the text, where
the part starts at `c` and `behind` follows it. -/
structure Shifted (c : Cursor) (behind : List Glyph) (d e : Cursor) : Prop where
  rest : e.rest = d.rest ++ behind
  offset : e.offset = c.offset + d.offset
  one_le : 1 ≤ d.line
  line : e.line + 1 = c.line + d.line
  column : e.column = if d.line = 1 then c.column + d.column else d.column

variable {c d e : Cursor} {behind : List Glyph}

/-- **One character.** Whether a carriage return ends its line is up to the character behind it;
behind the part there is no line feed. -/
theorem Shifted.advance (h : Shifted c behind d e)
    (hbehind : behind.head?.map (·.char) ≠ some '\n') {g : Glyph} {rest : List Glyph}
    (hd : d.rest = g :: rest) : Shifted c behind d.advance e.advance := by
  have he : e.rest = g :: (rest ++ behind) := by rw [h.rest, hd]; rfl
  have hnext : ((rest ++ behind).head?.map (·.char) == some '\n')
      = (rest.head?.map (·.char) == some '\n') := by
    cases rest with
    | nil => exact beq_eq_false_iff_ne.mpr hbehind
    | cons k rest => rfl
  obtain ⟨-, hoffset, hone, hline, hcolumn⟩ := h
  -- the part and the text take the same branch of `Cursor.past`
  rw [advance_of_cons hd, advance_of_cons he]
  unfold past
  dsimp only
  rw [hnext]
  split
  · refine ⟨rfl, by dsimp only; omega, hone, hline, ?_⟩
    dsimp only
    rw [hcolumn]
    split <;> omega
  · split
    · refine ⟨rfl, by dsimp only; omega, by dsimp only; omega, by dsimp only; omega, ?_⟩
      dsimp only
      rw [if_neg (by omega)]
    · refine ⟨rfl, by dsimp only; omega, hone, hline, ?_⟩
      dsimp only
      rw [hcolumn]
      split <;> omega

/-- **Many characters.** -/
theorem Shifted.advanceBy (hbehind : behind.head?.map (·.char) ≠ some '\n') (count : Nat) :
    ∀ {d e : Cursor}, Shifted c behind d e → count ≤ d.rest.length →
      Shifted c behind (d.advanceBy count) (e.advanceBy count) := by
  induction count with
  | zero =>
    intro d e h _
    exact h
  | succ count ih =>
    intro d e h hcount
    obtain ⟨g, rest, hd⟩ : ∃ g rest, d.rest = g :: rest :=
      List.exists_cons_of_length_pos (by omega)
    refine ih (h.advance hbehind hd) ?_
    rw [advance_rest, hd, List.tail_cons]
    rw [hd, List.length_cons] at hcount
    omega

/-- **A position in a part of a text as a position in the text.** The part starts where a cursor in
the text stands, and what follows it does not go on with its last line end. -/
theorem Reaches.lineColumn_shows {text body : Bytes} {start : Cursor} {behind : List Glyph}
    (hreaches : (ofSource text).Reaches start) (hrest : start.rest = Utf8.glyphs body ++ behind)
    (hbehind : behind.head?.map (·.char) ≠ some '\n') {p : Position}
    (hp : (ofSource body).Shows p) :
    (((LineMap.ofText text).lineColumn (start.offset + p.offset)).1 : Int) + 1
        = ((LineMap.ofText text).lineColumn start.offset).1 + p.line
      ∧ (((LineMap.ofText text).lineColumn (start.offset + p.offset)).2 : Int)
        = if p.line = 1 then ((LineMap.ofText text).lineColumn start.offset).2 + p.column
          else p.column := by
  obtain ⟨d, ⟨gs, hgs⟩, rfl⟩ := hp
  have hlength : gs.length ≤ (Utf8.glyphs body).length := by
    have hbody : Utf8.glyphs body = gs ++ d.rest := hgs.rest_eq
    rw [hbody, List.length_append]
    exact Nat.le_add_right _ _
  have hshift : Shifted start behind (ofSource body) start :=
    ⟨hrest, rfl, Nat.le_refl 1, rfl, rfl⟩
  obtain ⟨-, hoffset, -, hline, hcolumn⟩ := hshift.advanceBy hbehind gs.length hlength
  rw [hgs.advance_eq] at hoffset hline hcolumn
  obtain ⟨-, hl, hc⟩ := LineMap.lineColumn_of_reaches hreaches
  obtain ⟨-, hl', hc'⟩ :=
    LineMap.lineColumn_of_reaches (hreaches.trans (reaches_advanceBy gs.length start))
  rw [hoffset, Int.natCast_add] at hl' hc'
  have hposition : d.position = ⟨d.line, d.column, d.offset⟩ := rfl
  rw [hposition, ← hc', hcolumn, ← hc]
  dsimp only
  refine ⟨by omega, ?_⟩
  split <;> split <;> omega

/-- The place where a cursor stands lies within the text. -/
theorem Reaches.lineColumn_le {text : Bytes} (h : (ofSource text).Reaches c) :
    ((LineMap.ofText text).lineColumn c.offset).1 + ((LineMap.ofText text).lineColumn c.offset).2
      ≤ text.length := by
  obtain ⟨hle, hl, hc⟩ := LineMap.lineColumn_of_reaches h
  obtain ⟨-, -, hsum⟩ := h.shows.bounded
  have hposition : c.position = ⟨c.line, c.column, c.offset⟩ := rfl
  rw [hposition] at hsum
  dsimp only at hsum
  omega

end Cursor

/-- The text `body` is a delimited part of the document, between `done` and `behind`. -/
structure ScriptAt (document done body behind : Bytes) : Prop where
  document_eq : document = done ++ body ++ behind
  done_last : done.getLast? = some 0x3E
  behind_head : ∀ b ∈ behind.head?, b = 0x3C

namespace ScriptAt

variable {document done body behind : Bytes}

/-- No character goes across the ends of a delimited part. -/
theorem exists_start (h : ScriptAt document done body behind) :
    ∃ start, (Cursor.ofSource document).Reaches start ∧ start.offset = done.length
      ∧ start.rest = Utf8.glyphs body ++ Utf8.glyphs behind := by
  obtain ⟨rfl, hlast, hhead⟩ := h
  have hfresh : Utf8.Fresh behind := fun b hb => by rw [hhead b hb]; rfl
  have hascii : ∀ b ∈ done.getLast?, b < 0x80 := by
    rw [hlast]
    rintro b ⟨⟩
    decide
  have hglyphs : Utf8.glyphs (done ++ body ++ behind)
      = Utf8.glyphs done ++ (Utf8.glyphs body ++ Utf8.glyphs behind) := by
    rw [Utf8.glyphs_append _ hfresh, Utf8.glyphs_append_of_getLast hascii, List.append_assoc]
  obtain ⟨start, hreach, hoffset, hrest⟩ := Cursor.exists_reaches_of_glyphs hglyphs
  exact ⟨start, hreach, hoffset.trans (congrArg List.length (Utf8.bytes_glyphs done)), hrest⟩

theorem head_ne_newline (h : ScriptAt document done body behind) :
    (Utf8.glyphs behind).head?.map (·.char) ≠ some '\n' := by
  rw [Ne, LineMap.glyphs_head_newline]
  rintro ⟨r, rfl⟩
  exact absurd (h.behind_head 0x0A rfl) (by decide)

/-- **A position in a delimited part as a position in the document.** -/
theorem lineColumn_shows (h : ScriptAt document done body behind) {p : Position}
    (hp : (Cursor.ofSource body).Shows p) :
    (((LineMap.ofText document).lineColumn (done.length + p.offset)).1 : Int) + 1
        = ((LineMap.ofText document).lineColumn done.length).1 + p.line
      ∧ (((LineMap.ofText document).lineColumn (done.length + p.offset)).2 : Int)
        = if p.line = 1 then ((LineMap.ofText document).lineColumn done.length).2 + p.column
          else p.column := by
  obtain ⟨start, hreaches, hoffset, hrest⟩ := h.exists_start
  rw [← hoffset]
  exact hreaches.lineColumn_shows hrest h.head_ne_newline hp

/-- The place of a delimited part lies within the document. -/
theorem lineColumn_le (h : ScriptAt document done body behind) :
    ((LineMap.ofText document).lineColumn done.length).1
        + ((LineMap.ofText document).lineColumn done.length).2 ≤ document.length := by
  obtain ⟨start, hreaches, hoffset, -⟩ := h.exists_start
  rw [← hoffset]
  exact hreaches.lineColumn_le

end ScriptAt

/-! ## On the way out -/

/-- The mapping of a token of a script that starts at `offset` of the document; the text of the
token is written behind `before`. Lines and columns are those of the document and of the output
as wholes. -/
structure MapsInDocument (o : Options) (document : Bytes) (offset : Nat) (before : Bytes)
    (t : Token) (m : Mapping) : Prop where
  original : m.original =
    ⟨((LineMap.ofText document).lineColumn (offset + t.start.offset)).1 + 1,
      ((LineMap.ofText document).lineColumn (offset + t.start.offset)).2⟩
  generated : m.generated = ⟨1 + before.count 0x0A, utf16Units (lastLine before)⟩
  source : m.source = o.url
  name : m.name = []

/-- `code` is what is written for tokens of a script behind the output `before`, with the
mappings of the tokens. -/
inductive ScriptWritten (o : Options) (document : Bytes) (offset : Nat) :
    (before : Bytes) → List Token → (code : Bytes) → List Mapping → Prop
  | comment {before t rest gap level code ms} (ht : t.isComment = true)
    (hgap : Layout.IsGap o.indent gap)
    (hrest : ScriptWritten o document offset
      (before ++ gap ++ Layout.commentText o.indent level t) rest code ms) :
    ScriptWritten o document offset before (t :: rest)
      (gap ++ Layout.commentText o.indent level t ++ code) ms
  | token {before t rest gap code m ms} (ht : t.isComment = false) (hne : t.kind ≠ .eof)
    (hgap : Layout.IsGap o.indent gap) (hm : MapsInDocument o document offset (before ++ gap) t m)
    (hrest : ScriptWritten o document offset (before ++ gap ++ t.text) rest code ms) :
    ScriptWritten o document offset before (t :: rest) (gap ++ t.text ++ code) (m :: ms)
  | eof {before t gap} (ht : t.kind = .eof) (hgap : Layout.IsGap o.indent gap) :
    ScriptWritten o document offset before [t] gap []

open InlineScript (opensAfter isScriptText)

/-- `code` is what is written for the tokens of a document behind the output `before`, with the
mappings of the scripts; `done` is the part of the document before the tokens, and `inside` says
whether a text that comes first is a script. A script is written behind a line feed, all else is
copied. -/
inductive DocumentWritten (o : Options) (document : Bytes) : (inside : Bool) → (done : Bytes) →
    (before : Bytes) → List Markup.MarkupToken → (code : Bytes) → List Mapping → Prop
  | nil {inside done before} : DocumentWritten o document inside done before [] [] []
  | copied {inside done before t rest code ms} (ht : isScriptText inside t = false)
    (hrest : DocumentWritten o document (opensAfter inside t.kind) (done ++ t.raw)
      (before ++ t.raw) rest code ms) :
    DocumentWritten o document inside done before (t :: rest) (t.raw ++ code) ms
  | script {inside done before t rest tokens text ms code ms'} (ht : isScriptText inside t = true)
    (htokens : tokenize t.raw = .ok tokens)
    (hscript : ScriptWritten o document done.length (before ++ [0x0A]) tokens text ms)
    (hrest : DocumentWritten o document (opensAfter inside t.kind) (done ++ t.raw)
      (before ++ [0x0A] ++ text) rest code ms') :
    DocumentWritten o document inside done before (t :: rest) ([0x0A] ++ text ++ code)
      (ms ++ ms')

section Script

variable {o : Options} {document done body behind out : Bytes}

/-- **The mapping of a token of a script is one of the document.** -/
theorem mapsInDocument_of_mapsTo (hpart : ScriptAt document done body behind) {t : Token}
    {m : Mapping} {x : Bytes} (ht : (Cursor.ofSource body).Shows t.start)
    (hoffset : t.start.offset < 2 ^ 62) (hlength : (0x0A :: x).length < 2 ^ 62)
    (h : Layout.MapsTo (embeddedOptions o document done out) (0x0A :: x) t m) :
    MapsInDocument o document done.length (out ++ 0x0A :: x) t m := by
  obtain ⟨hline, hcolumn⟩ := hpart.lineColumn_shows ht
  refine ⟨?_, ?_, h.source, h.name⟩
  · -- the columns are only shifted on the first line of the script
    have hl : m.original.line = _ := h.originalLine hoffset
    have hc : m.original.column = _ := h.originalColumn hoffset
    have hstartLine : (embeddedOptions o document done out).originalStartLine
        = ((LineMap.ofText document).lineColumn done.length).1 + 1 := rfl
    have hstartColumn : (embeddedOptions o document done out).originalStartColumn
        = ((LineMap.ofText document).lineColumn done.length).2 := rfl
    rw [hstartLine, if_pos (by omega)] at hl
    rw [hstartColumn] at hc
    have hplace : m.original = ⟨m.original.line, m.original.column⟩ := rfl
    rw [hplace, hl, hc, hcolumn, hline]
    congr 1
    · omega
    · split <;> split <;> omega
  · have hl : m.generated.line = _ := h.generatedLine hlength
    have hstart : (embeddedOptions o document done out).generatedStartLine
        = (1 + out.count 0x0A : Nat) := rfl
    have hlastLine : lastLine (out ++ 0x0A :: x) = lastLine (0x0A :: x) := by
      rw [lastLine_append, ← lastLine_append []]
      rfl
    rw [hstart, if_pos (by omega)] at hl
    have hplace : m.generated = ⟨m.generated.line, m.generated.column⟩ := rfl
    rw [hplace, hl, h.generatedColumn, hlastLine, List.count_append]
    congr 1
    omega

/-- **The text of a script with its mappings**, behind the line feed that it starts with. -/
theorem scriptWritten_of_laidOut (hpart : ScriptAt document done body behind)
    {last : Option Token} {before code : Bytes} {tokens : List Token} {ms : List Mapping}
    (h : Layout.LaidOut (embeddedOptions o document done out) last before tokens code ms)
    (hbefore : ∃ x, before = 0x0A :: x) (hlength : (before ++ code).length < 2 ^ 62)
    (htokens : ∀ t ∈ tokens, (Cursor.ofSource body).Shows t.start ∧ t.start.offset < 2 ^ 62) :
    ScriptWritten o document done.length (out ++ before) tokens code ms := by
  induction h with
  | @comment last before t rest gap level code ms ht hgap hrest ih =>
    obtain ⟨x, rfl⟩ := hbefore
    have hih := ih ⟨_, rfl⟩ (by simpa only [List.append_assoc] using hlength)
      fun u hu => htokens u (List.mem_cons_of_mem t hu)
    rw [← List.append_assoc, ← List.append_assoc] at hih
    exact .comment ht hgap hih
  | @token last before t rest gap code m ms ht hne hgap hbetween hm hrest ih =>
    obtain ⟨x, rfl⟩ := hbefore
    obtain ⟨hshows, hoffset⟩ := htokens t List.mem_cons_self
    have hih := ih ⟨_, rfl⟩ (by simpa only [List.append_assoc] using hlength)
      fun u hu => htokens u (List.mem_cons_of_mem t hu)
    have hshort : (0x0A :: (x ++ gap)).length < 2 ^ 62 := by
      simp only [List.length_append, List.length_cons] at hlength ⊢
      omega
    have hmaps := mapsInDocument_of_mapsTo hpart hshows hoffset hshort hm
    rw [← List.cons_append, ← List.append_assoc] at hmaps
    rw [← List.append_assoc, ← List.append_assoc] at hih
    exact .token ht hne hgap hmaps hih
  | eof ht hgap _ => exact .eof ht hgap

end Script

/-! ## Documents -/

namespace InlineScript

variable {o : Options} {document done out : Bytes} {p q : Progress} {inside : Bool}

/-- Lines and columns of a text in memory fit a word. -/
theorem offsetsBelow_embeddedOptions {body behind : Bytes}
    (hpart : ScriptAt document done body behind) (hdocument : document.length < 2 ^ 60)
    (hout : out.length < 2 ^ 60) :
    Layout.OffsetsBelow (embeddedOptions o document done out) (2 ^ 61) := by
  have hstart := hpart.lineColumn_le
  have hlines := List.count_le_length (a := (0x0A : UInt8)) (l := out)
  refine ⟨?_, ?_, ?_⟩
  · show (((LineMap.ofText document).lineColumn done.length).1 : Int) + 1 < 2 ^ 61
    omega
  · show (((LineMap.ofText document).lineColumn done.length).2 : Int) < 2 ^ 61
    omega
  · show ((1 + out.count 0x0A : Nat) : Int) < 2 ^ 61
    omega

/-- A script that is accepted is written behind a line feed. -/
theorem scriptWritten_format {body behind : Bytes} {f : Formatted}
    (hpart : ScriptAt document done body behind)
    (h : format (embeddedOptions o document done out) body = .ok f) :
    ∃ tokens text, tokenize body = .ok tokens ∧ f.code = [0x0A] ++ text
      ∧ (document.length < 2 ^ 60 → (out ++ f.code).length < 2 ^ 60 →
        ScriptWritten o document done.length (out ++ [0x0A]) tokens text f.mappings) := by
  unfold format at h
  split at h
  next tokens htokens =>
    cases h
    have hlexed := tokenize_lexed htokens
    have hcovers := tokenize_covers htokens
    refine ⟨tokens, (Layout.emissionsFrom o.indent {} tokens).flatMap Emission.bytes, htokens, ?_⟩
    have hcode := Layout.code_formatTokens (o := embeddedOptions o document done out) hlexed
    refine ⟨hcode, fun hdocument hlength => ?_⟩
    rw [hcode] at hlength
    rw [Layout.mappings_formatTokens hlexed]
    -- the offsets have room, because they had it in the whole document
    have hbody : body.length ≤ document.length := by
      rw [hpart.document_eq, List.length_append, List.length_append]
      omega
    have hout : out.length < 2 ^ 60 := by
      rw [List.length_append] at hlength
      omega
    have hwritten := Layout.laidOut_emissions
      (offsetsBelow_embeddedOptions (o := o) hpart hdocument hout) hlexed
      (fun t ht => (hcovers t ht).1) [0x0A]
    refine scriptWritten_of_laidOut hpart hwritten ⟨[], rfl⟩ ?_ fun t ht => ?_
    · show ([0x0A] ++ (Layout.emissionsFrom o.indent {} tokens).flatMap Emission.bytes).length
        < 2 ^ 62
      rw [List.length_append] at hlength
      exact Nat.lt_of_le_of_lt (Nat.le_add_left _ _) (Nat.lt_trans hlength (by decide))
    · obtain ⟨-, hnonneg, hle⟩ := LineMap.locates_of_shows (hcovers t ht).1
      exact ⟨(hcovers t ht).1, by omega⟩
  next => cases h

/-- **A run writes a document.** -/
theorem run_written {tokens : List Markup.MarkupToken} (hp : p.Tracks inside done out)
    (hdelimited : Markup.Delimited inside done tokens)
    (hdocument : document = done ++ tokens.flatMap (·.raw))
    (h : (run o (LineMap.ofText document) p tokens).1 = .ok q) :
    ∃ code ms, q.written.reverse.flatten = out ++ code ∧ q.mappings = p.mappings ++ ms
      ∧ (document.length < 2 ^ 60 → (out ++ code).length < 2 ^ 60 →
        DocumentWritten o document inside done out tokens code ms) := by
  induction tokens generalizing p inside done out with
  | nil =>
    cases h
    refine ⟨[], [], ?_, (List.append_nil _).symm, fun _ _ => .nil⟩
    rw [hp.written_eq, List.append_nil]
  | cons t rest ih =>
    obtain ⟨hscript, hrest⟩ := hdelimited
    have hdone : document = done ++ t.raw ++ rest.flatMap (·.raw) := by
      rw [hdocument, List.flatMap_cons, List.append_assoc]
    obtain ⟨p', hpast, hrun⟩ := exists_of_run_cons h
    -- one token is copied or written as a script, and the run goes on behind it
    rcases past_eq_ok hp hpast with ⟨ht, -, hms, hp'⟩ | ⟨g, ht, -, hms, hg, hp'⟩
    · obtain ⟨code, ms, hwritten, hmappings, hcode⟩ := ih hp' hrest hdone hrun
      refine ⟨t.raw ++ code, ms, ?_, by rw [hmappings, hms], fun hd hl => ?_⟩
      · rw [hwritten, List.append_assoc]
      · rw [← List.append_assoc] at hl
        exact .copied ht (hcode hd hl)
    · obtain ⟨hlast, hhead⟩ := hscript ht
      obtain ⟨tokens, text, htokens, htext, hwritten⟩ :=
        scriptWritten_format ⟨hdone, hlast, hhead⟩ hg
      obtain ⟨code, ms, hflat, hmappings, hcode⟩ := ih hp' hrest hdone hrun
      rw [htext] at hwritten hflat hcode
      refine ⟨[0x0A] ++ text ++ code, g.mappings ++ ms, ?_, ?_, fun hd hl => ?_⟩
      · rw [hflat, List.append_assoc]
      · rw [hmappings, hms, List.append_assoc]
      · rw [← List.append_assoc] at hl
        have hcut : (out ++ ([0x0A] ++ text)).length < 2 ^ 60 := by
          rw [List.length_append] at hl
          omega
        refine .script ht htokens (hwritten hd hcut) ?_
        rw [List.append_assoc]
        exact hcode hd hl

end InlineScript

/-- **Mappings of scripts lie in the whole document.** Whatever the tokens whose texts make up the
document, with scripts delimited: if it is accepted, it is copied with a script in place of each
text of an inline script, and every token of a script has one mapping, from its place in the
document to the place of its text in the output. Texts are shorter than `2 ^ 60`, as texts in
memory are. The tokens that documents are split into are such tokens. -/
theorem formatDocument_written (o : Options) (document : Bytes) :
    formatDocument o document = formatSplit o document (Markup.tokens document)
      ∧ (Markup.tokens document).flatMap (·.raw) = document
      ∧ Markup.Delimited false [] (Markup.tokens document)
      ∧ ∀ tokens : List Markup.MarkupToken, tokens.flatMap (·.raw) = document →
        Markup.Delimited false [] tokens →
        ∀ f, (formatSplit o document tokens).1 = .ok f → document.length < 2 ^ 60 →
          f.code.length < 2 ^ 60 →
          DocumentWritten o document false [] [] tokens f.code f.mappings := by
  refine ⟨rfl, Markup.raw_tokens document, Markup.delimited_tokens document, ?_⟩
  intro tokens hraw hdelimited f hf hdocument hcode
  obtain ⟨q, hrun, hflat, -, hmappings⟩ := exists_run_of_formatSplit hf
  have hstart : ({} : InlineScript.Progress).Tracks false [] [] := ⟨rfl, rfl, rfl, rfl⟩
  obtain ⟨code, ms, hwritten, hms, hdone⟩ :=
    InlineScript.run_written hstart hdelimited hraw.symm hrun
  rw [hflat] at hwritten
  rw [hmappings] at hms
  rw [hwritten] at hcode ⊢
  rw [hms]
  exact hdone hdocument hcode

/-- Two scripts on one line, the second behind a character of two units. -/
def sampleDocument : Bytes := utf8 "<script>a</script>😀<script>b\nc</script>"

theorem formatDocument_written_sample :
    ∃ f, (formatDocument { indent := [0x20] } sampleDocument).1 = .ok f
      ∧ f.mappings = [⟨⟨2, 0⟩, ⟨1, 8⟩, [], []⟩, ⟨⟨4, 0⟩, ⟨1, 28⟩, [], []⟩,
        ⟨⟨5, 0⟩, ⟨2, 0⟩, [], []⟩]
      ∧ DocumentWritten { indent := [0x20] } sampleDocument false [] []
        (Markup.tokens sampleDocument) f.code f.mappings := by
  have hresult : ((formatDocument { indent := [0x20] } sampleDocument).1.toOption.any fun f =>
      decide (f.code.length < 100) && f.mappings == [⟨⟨2, 0⟩, ⟨1, 8⟩, [], []⟩,
        ⟨⟨4, 0⟩, ⟨1, 28⟩, [], []⟩, ⟨⟨5, 0⟩, ⟨2, 0⟩, [], []⟩]) = true := by
    decide +kernel
  obtain ⟨heq, hraw, hdelimited, hall⟩ :=
    formatDocument_written { indent := [0x20] } sampleDocument
  cases hf : (formatDocument { indent := [0x20] } sampleDocument).1 with
  | error e =>
    rw [hf] at hresult
    cases hresult
  | ok f =>
    rw [hf] at hresult
    obtain ⟨hcode, hmappings⟩ := Bool.and_eq_true_iff.mp hresult
    have hlength : f.code.length < 100 := of_decide_eq_true hcode
    have hdocument : sampleDocument.length < 100 := by decide +kernel
    rw [heq] at hf
    exact ⟨f, rfl, eq_of_beq hmappings, hall _ hraw hdelimited f hf (by omega) (by omega)⟩

end ScriptTidy
