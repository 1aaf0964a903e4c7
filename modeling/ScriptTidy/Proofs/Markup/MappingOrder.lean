import ScriptTidy.Proofs.Layout.MappingOrder
import ScriptTidy.Proofs.LineMap.Extension
import ScriptTidy.Proofs.Markup.Copying
import ScriptTidy.Proofs.Scanner.TokenStarts

/-!
# The order of mappings in a document

The mappings of a script are in order, and each script is written on lines of its own, behind the
one that was written before. In the document the scripts are texts one behind the other, but where
a script ends in the middle of a character or of a line end, counting its characters is not the same
as counting those of the document. This does no harm, since all tokens with mappings start with
characters, or have one behind them that does.

* `exists_at` : a cursor in a script is one in the document.
* `Ordered` : what holds of the mappings behind each token of a document.
* `Ordered.script`, `ordered_of_run` : one script, and a whole run.
* `mappings_inOrder` : the mappings of sources and documents.
-/

namespace ScriptTidy

open Scanner
open InlineScript (Progress run past_eq_ok exists_of_run_concat copied_of_run)
open Markup (MarkupToken IsScript insideAfter insideAfter_concat isScriptText_iff)
open Mapping (Precedes)

/-! ## Cursors in a part of a text -/

/-- The place of an offset of a text, with lines from one. -/
def LineMap.placeAt (m : LineMap) (offset : Int) : Place :=
  ⟨(m.lineColumn offset).1 + 1, (m.lineColumn offset).2⟩

namespace Cursor

variable {text front back : Bytes} {c d : Cursor}

/-- A text that starts with a character can be read behind any other. -/
theorem exists_reaches_append (front : Bytes) (h : Utf8.Fresh back) :
    ∃ d, (ofSource (front ++ back)).Reaches d ∧ d.offset = front.length
      ∧ d.rest = Utf8.glyphs back := by
  obtain ⟨d, hreach, hoffset, hrest⟩ := exists_reaches_of_glyphs (Utf8.glyphs_append front h)
  exact ⟨d, hreach, hoffset.trans (congrArg List.length (Utf8.bytes_glyphs front)), hrest⟩

/-- Of two cursors in a text, the one with the lower offset comes first. -/
theorem reaches_of_offset_le (hc : (ofSource text).Reaches c) (hd : (ofSource text).Reaches d)
    (h : c.offset ≤ d.offset) : c.Reaches d := by
  obtain ⟨gs, hgs⟩ := hc
  obtain ⟨hs, hhs⟩ := hd
  have hle : LineMap.glyphsLength gs ≤ LineMap.glyphsLength hs := by
    rw [hgs.offset_eq, hhs.offset_eq] at h
    exact Nat.le_of_add_le_add_left h
  obtain ⟨more, rfl⟩ := LineMap.prefix_of_glyphsLength_le (Utf8.isDecoding_glyphs text)
    ⟨c.rest, hgs.rest_eq.symm⟩ ⟨d.rest, hhs.rest_eq.symm⟩ hle
  have hadvance := hhs.advance_eq
  rw [List.length_append, advanceBy_add, hgs.advance_eq] at hadvance
  rw [← hadvance]
  exact reaches_advanceBy _ _

/-- The place of a cursor is the one that the table of lines finds. -/
theorem Reaches.place_eq (h : (ofSource text).Reaches c) :
    c.position.place = (LineMap.ofText text).placeAt c.offset := by
  obtain ⟨-, hline, hcolumn⟩ := LineMap.lineColumn_of_reaches h
  show (⟨(c.line : Int), (c.column : Int)⟩ : Place) = _
  rw [hline, hcolumn]
  rfl

/-- What is left to read is a text of its own. -/
theorem Clear.exists_text (hclear : c.Clear) (hc : (ofSource text).Reaches c) :
    ∃ front back, text = front ++ back ∧ front.length = c.offset ∧ back ≠ []
      ∧ Utf8.Fresh back := by
  obtain ⟨g, rest, hrest, hchar⟩ := hclear
  obtain ⟨gs, hgs⟩ := hc
  have hdec : Utf8.IsDecoding c.rest :=
    Reaches.isDecoding ⟨gs, hgs⟩ (Utf8.isDecoding_glyphs text)
  have htext : Utf8.glyphs text = gs ++ c.rest := hgs.rest_eq
  refine ⟨gs.flatMap (·.bytes), c.rest.flatMap (·.bytes), ?_, ?_, ?_, ?_⟩
  · rw [← List.flatMap_append, ← htext, Utf8.bytes_glyphs]
  · exact hgs.offset_eq_length.symm
  · rw [hrest, List.flatMap_cons]
    rw [hrest] at hdec
    exact List.append_ne_nil_of_left_ne_nil (hdec.bytes_ne_nil g List.mem_cons_self) _
  · exact Utf8.fresh_of_glyphs (Eq.trans hdec hrest) hchar

theorem Clear.fresh (h : (ofSource text).Clear) : Utf8.Fresh text := by
  obtain ⟨g, rest, hrest, hchar⟩ := h
  exact Utf8.fresh_of_glyphs hrest hchar

end Cursor

section Part

variable {o : Options} {document done body behind out : Bytes} {tokens : List Token}

/-- The place in the document of a position in a script, as the mappings of the script have it. -/
theorem exactOriginal_embeddedOptions (o : Options) (document done out : Bytes) (p : Position) :
    (embeddedOptions o document done out).exactOriginal p
      = ⟨p.line + ((LineMap.ofText document).lineColumn done.length).1,
        if p.line = 1 then ((LineMap.ofText document).lineColumn done.length).2 + p.column
          else p.column⟩ := by
  unfold Options.exactOriginal Options.exactLine embeddedOptions InlineScript.scriptOptions
  dsimp only
  rw [if_pos (by omega)]
  congr 1
  · omega
  · split <;> split <;> omega

/-- **Mappings of a script go back to the document**: what stands behind the script plays no part in
the places of what stands in it. -/
theorem placeAt_eq_exactOriginal (hdocument : document = done ++ body ++ behind)
    (hstart : (Cursor.ofSource body).Clear) {c : Cursor}
    (hc : (Cursor.ofSource body).Reaches c) (hlength : c.offset < body.length) :
    (LineMap.ofText document).placeAt (done.length + c.offset)
      = (embeddedOptions o document done out).exactOriginal c.position := by
  -- a line end or a character could go on behind the script, so that is cut off first
  have hline : ∀ n : Nat, n < body.length →
      (LineMap.ofText document).lineColumn ((done.length + n : Nat) : Int)
        = (LineMap.ofText (done ++ body)).lineColumn ((done.length + n : Nat) : Int) := by
    intro n hn
    rw [hdocument]
    refine LineMap.lineColumn_append (.inl ?_)
    rw [List.length_append]
    omega
  have hplace := hline c.offset hlength
  have hbegin := hline 0 (by omega)
  rw [Nat.add_zero] at hbegin
  obtain ⟨start, hreaches, hoffset, hrest⟩ :=
    Cursor.exists_reaches_append done hstart.fresh
  have hbody : start.rest = Utf8.glyphs body ++ [] := by rw [hrest, List.append_nil]
  obtain ⟨hl, hcol⟩ := hreaches.lineColumn_shows hbody (fun hnone => by cases hnone) hc.shows
  have hposition : c.position = ⟨c.line, c.column, c.offset⟩ := rfl
  rw [hoffset, hposition] at hl hcol
  dsimp only at hl hcol
  rw [← Int.natCast_add, ← hplace, ← hbegin, Int.natCast_add] at hl hcol
  rw [LineMap.placeAt, exactOriginal_embeddedOptions, hposition]
  dsimp only
  rw [hcol]
  congr 1
  omega

/-- **A cursor in a script is one in the document**, where the mappings of the script say that it
is. -/
theorem exists_at (o : Options) (out : Bytes) (hdocument : document = done ++ body ++ behind)
    (hstart : (Cursor.ofSource body).Clear) {c : Cursor} (hc : (Cursor.ofSource body).Reaches c)
    (hclear : c.Clear) :
    ∃ e, (Cursor.ofSource document).Reaches e ∧ e.offset = done.length + c.offset
      ∧ c.offset < body.length
      ∧ e.position.place = (embeddedOptions o document done out).exactOriginal c.position := by
  obtain ⟨front, back, hbody, hfront, hback, hfresh⟩ := hclear.exists_text hc
  have hpos := List.length_pos_of_ne_nil hback
  have hlength : c.offset < body.length := by
    rw [hbody, List.length_append]
    omega
  -- what starts a character in the script starts one in the document
  have hmore : Utf8.Fresh (back ++ behind) := by
    intro b hb
    rw [List.head?_append_of_ne_nil _ hback] at hb
    exact hfresh b hb
  obtain ⟨e, he, hoffset, -⟩ := Cursor.exists_reaches_append (done ++ front) hmore
  have hsplit : done ++ front ++ (back ++ behind) = document := by
    rw [hdocument, hbody]
    simp only [List.append_assoc]
  rw [hsplit] at he
  rw [List.length_append, hfront] at hoffset
  refine ⟨e, he, hoffset, hlength, ?_⟩
  rw [he.place_eq, hoffset, Int.natCast_add]
  exact placeAt_eq_exactOriginal hdocument hstart hc hlength

theorem original_eq_exactOriginal {o : Options} {x : Token × Mapping}
    (hx : x ∈ stampedTokens o tokens) : x.2.original = o.exactOriginal x.1.start := by
  obtain ⟨y, -, rfl⟩ := List.mem_map.mp hx
  rfl

theorem mem_mapped {o : Options} {x : Token × Mapping} (hx : x ∈ stampedTokens o tokens) :
    x.1 ∈ Layout.mapped tokens := by
  rw [← fst_stampedTokens o]
  exact List.mem_map_of_mem hx

/-- Each mapping of a script goes back to the start of its token in the document. -/
theorem original_embedded (hdocument : document = done ++ body ++ behind) (hne : body ≠ [])
    (h : tokenize body = .ok tokens) :
    (stampedTokens (embeddedOptions o document done out) tokens).map (fun x => x.2.original)
      = (Layout.mapped tokens).map fun t =>
        (LineMap.ofText document).placeAt (done.length + t.start.offset) := by
  have hstart := clear_of_tokenize h hne
  rw [← fst_stampedTokens (embeddedOptions o document done out), List.map_map]
  refine List.map_congr_left fun x hx => ?_
  obtain ⟨c, hc, hclear, -, hle⟩ := exists_clear_start h x.1 (mem_mapped hx)
  obtain ⟨front, back, hbody, hfront, hback, -⟩ := hclear.exists_text hc
  have hpos := List.length_pos_of_ne_nil hback
  obtain ⟨d, hd, hposition⟩ := (tokenize_covers h x.1 (List.mem_filter.mp (mem_mapped hx)).1).1
  have hoffset : x.1.start.offset = (d.offset : Int) := by
    rw [hposition]
    rfl
  have hlength : d.offset < body.length := by
    rw [hbody, List.length_append]
    omega
  rw [original_eq_exactOriginal hx, Function.comp_apply, hoffset, hposition]
  exact (placeAt_eq_exactOriginal hdocument hstart hd hlength).symm

/-- **The mappings of a script lie in its part of the document.** No place in front of the script
lies behind one of them, and behind each of them is a place of the script. -/
theorem original_within (hdocument : document = done ++ body ++ behind) (hne : body ≠ [])
    (h : tokenize body = .ok tokens) {x : Token × Mapping}
    (hx : x ∈ stampedTokens (embeddedOptions o document done out) tokens) :
    (∀ e, (Cursor.ofSource document).Reaches e → e.offset ≤ done.length →
        e.position.place.le x.2.original = true)
      ∧ ∃ e, (Cursor.ofSource document).Reaches e ∧ e.offset ≤ done.length + body.length
        ∧ x.2.original.le e.position.place = true := by
  have hstart := clear_of_tokenize h hne
  have hshows := (tokenize_covers h x.1 (List.mem_filter.mp (mem_mapped hx)).1).1
  obtain ⟨hline, -⟩ := hshows.within
  obtain ⟨-, hcolumn, -⟩ := hshows.bounded
  rw [original_eq_exactOriginal hx]
  refine ⟨fun e he hoffset => ?_, ?_⟩
  · -- the start of the script lies between the two
    obtain ⟨first, hfirst, hfirstOffset, -, hfirstPlace⟩ :=
      exists_at o out hdocument hstart (Cursor.Reaches.refl _) hstart
    have hreaches := Cursor.reaches_of_offset_le he hfirst
      (by rw [hfirstOffset]; exact Nat.le_trans hoffset (Nat.le_add_right _ _))
    refine Place.le_trans _ _ _ hreaches.place_le ?_
    rw [hfirstPlace]
    refine Options.exactOriginal_le (Int.le_refl 1) (Place.le_iff.mpr ?_)
    show (1 : Int) < x.1.start.line ∨ 1 = x.1.start.line ∧ 0 ≤ x.1.start.column
    omega
  · obtain ⟨c, hc, hclear, hle, -⟩ := exists_clear_start h x.1 (mem_mapped hx)
    obtain ⟨e, he, hoffset, hlength, hplace⟩ :=
      exists_at o out hdocument hstart hc hclear
    refine ⟨e, he, by omega, ?_⟩
    rw [hplace]
    exact Options.exactOriginal_le hline hle

/-- **A script is written on lines of its own**, behind those that are written already. -/
theorem line_embedded (h : tokenize body = .ok tokens) {x : Token × Mapping}
    (hx : x ∈ stampedTokens (embeddedOptions o document done out) tokens) :
    2 + (out.count 0x0A : Int) ≤ x.2.generated.line ∧ x.2.generated.line ≤ 1
      + (out ++ (formatTokens (embeddedOptions o document done out) tokens).code).count 0x0A := by
  obtain ⟨line, heq, hlow, hhigh⟩ := line_stampedTokens h hx
  have hstart : (embeddedOptions o document done out).generatedStartLine
      = ((1 + out.count 0x0A : Nat) : Int) := rfl
  rw [show (embeddedOptions o document done out).leadingNewline = true from rfl, if_pos rfl]
    at hlow
  rw [hstart, Options.exactLine, if_pos (by omega)] at heq
  rw [List.count_append]
  omega

/-- Texts in memory leave room for the offsets of a script. -/
theorem room_embeddedOptions (hdocument : document = done ++ body ++ behind) (hne : body ≠ [])
    (h : tokenize body = .ok tokens) {code : Bytes} (hlength : document.length < 2 ^ 62)
    (hcode : (out ++ code).length < 2 ^ 62) :
    (embeddedOptions o document done out).Room body.length code.length := by
  have hstart := clear_of_tokenize h hne
  obtain ⟨e, he, hoffset, -, -⟩ :=
    exists_at o out hdocument hstart (Cursor.Reaches.refl _) hstart
  have hplace := he.lineColumn_le
  rw [hoffset, show (Cursor.ofSource body).offset = 0 from rfl, Nat.add_zero] at hplace
  have hbody : body.length ≤ document.length := by
    rw [hdocument, List.length_append, List.length_append]
    omega
  have hcount := List.count_le_length (a := (0x0A : UInt8)) (l := out)
  rw [List.length_append] at hcode
  refine ⟨?_, ?_, ?_⟩
  · show (((LineMap.ofText document).lineColumn done.length).1 : Int) + 1 + body.length < 2 ^ 63
    omega
  · show (((LineMap.ofText document).lineColumn done.length).2 : Int) + body.length < 2 ^ 63
    omega
  · show ((1 + out.count 0x0A : Nat) : Int) + code.length < 2 ^ 63
    omega

/-! ## Scripts one behind the other -/

theorem Layout.Follow.append {R : Token × Mapping → Token × Mapping → Prop}
    {xs ys : List (Token × Mapping)} (hxs : Follow R xs) (hys : Follow R ys)
    (hbetween : ∀ x ∈ xs.getLast?, ∀ y ∈ ys.head?, R x y) : Follow R (xs ++ ys) := by
  refine ⟨List.isChain_append.mpr ⟨hxs.chain, hys.chain, hbetween⟩, fun x hx => ?_⟩
  rw [List.getLast?_append] at hx
  cases hlast : ys.getLast? with
  | none =>
    rw [hlast, Option.none_or] at hx
    exact hxs.last x hx
  | some y =>
    rw [hlast, Option.some_or] at hx
    cases hx
    exact hys.last _ hlast

/-- The mappings of the scripts in the part `done` of a document, for which `out` is written: they
are in order, and they lie in these two texts. -/
structure Ordered (document done out : Bytes) (xs : List (Token × Mapping)) : Prop where
  follow : Layout.Follow Precedes xs
  one_le : ∀ x ∈ xs, 1 ≤ x.2.generated.line
  line_le : ∀ x ∈ xs, x.2.generated.line ≤ 1 + out.count 0x0A
  original : ∀ x ∈ xs, ∃ e, (Cursor.ofSource document).Reaches e ∧ e.offset ≤ done.length
    ∧ x.2.original.le e.position.place = true

variable {xs : List (Token × Mapping)}

theorem ordered_nil (document : Bytes) : Ordered document [] [] [] :=
  ⟨⟨.nil, fun x hx => by cases hx⟩, fun x hx => (by cases hx), fun x hx => (by cases hx),
    fun x hx => by cases hx⟩

/-- What is read and written later changes nothing. -/
theorem Ordered.mono (h : Ordered document done out xs) (raw text : Bytes) :
    Ordered document (done ++ raw) (out ++ text) xs where
  follow := h.follow
  one_le := h.one_le
  line_le x hx := by
    have hle := h.line_le x hx
    rw [List.count_append]
    omega
  original x hx := by
    obtain ⟨e, he, hoffset, hle⟩ := h.original x hx
    refine ⟨e, he, ?_, hle⟩
    rw [List.length_append]
    omega

/-- **One more script.** It is written on new lines. -/
theorem Ordered.script (h : Ordered document done out xs)
    (hdocument : document = done ++ body ++ behind) (hne : body ≠ [])
    (htokens : tokenize body = .ok tokens) :
    Ordered document (done ++ body)
      (out ++ (formatTokens (embeddedOptions o document done out) tokens).code)
      (xs ++ stampedTokens (embeddedOptions o document done out) tokens) := by
  have hlater := h.mono body (formatTokens (embeddedOptions o document done out) tokens).code
  refine ⟨h.follow.append (follow_stampedTokens _ htokens) ?_, ?_, ?_, ?_⟩
  · -- the last mapping so far and the first of the script, which is on a later line
    intro x hx y hy
    have hxmem := List.mem_of_mem_getLast? hx
    have hymem := List.mem_of_mem_head? hy
    have hlast := h.follow.last x hx
    have hline := h.line_le x hxmem
    obtain ⟨hbelow, -⟩ := line_embedded htokens hymem
    obtain ⟨e, he, hoffset, hle⟩ := h.original x hxmem
    refine ⟨⟨Place.le_iff.mpr (.inl (by omega)), ⟨fun heq => ?_, fun hchunk => ?_⟩,
      fun hchunk => ?_⟩, ?_⟩
    · rw [heq] at hline
      omega
    · rw [hlast] at hchunk
      cases hchunk
    · rw [hlast] at hchunk
      cases hchunk
    · exact Place.le_trans _ _ _ hle
        ((original_within hdocument hne htokens hymem).1 e he hoffset)
  · intro x hx
    rcases List.mem_append.mp hx with hx | hx
    · exact h.one_le x hx
    · have hline := (line_embedded htokens hx).1
      omega
  · intro x hx
    rcases List.mem_append.mp hx with hx | hx
    · exact hlater.line_le x hx
    · exact (line_embedded htokens hx).2
  · intro x hx
    rcases List.mem_append.mp hx with hx | hx
    · exact hlater.original x hx
    · rw [List.length_append]
      exact (original_within hdocument hne htokens hx).2

end Part

/-! ## Documents -/

/-- `ts` are the tokens with mappings in the scripts of a document that is split into `tokens`, each
with its place in the document. -/
inductive ScriptTokens (document : Bytes) :
    (tokens : List MarkupToken) → (ts : List (Token × Place)) → Prop
  | nil : ScriptTokens document [] []
  | other {before ts t} (hbefore : ScriptTokens document before ts) (ht : ¬ IsScript before t) :
    ScriptTokens document (before ++ [t]) ts
  | script {before ts t tokens} (hbefore : ScriptTokens document before ts)
    (ht : IsScript before t) (htokens : tokenize t.raw = .ok tokens) :
    ScriptTokens document (before ++ [t]) (ts ++ (Layout.mapped tokens).map fun u =>
      (u, (LineMap.ofText document).placeAt
        ((before.flatMap (·.raw)).length + u.start.offset)))

theorem format_eq_ok {o : Options} {source : Bytes} {f : Formatted} (h : format o source = .ok f) :
    ∃ tokens, tokenize source = .ok tokens ∧ f = formatTokens o tokens := by
  unfold format at h
  split at h
  next tokens htokens =>
    cases h
    exact ⟨tokens, htokens, rfl⟩
  next => cases h

/-- **The mappings of a run are in order**, by induction on the tokens that it has passed. -/
theorem ordered_of_run {o : Options} {document : Bytes} {tokens : List MarkupToken} {p : Progress}
    (hlength : document.length < 2 ^ 62)
    (h : (run o (LineMap.ofText document) {} tokens).1 = .ok p) :
    ∀ {behind out : Bytes}, document = tokens.flatMap (·.raw) ++ behind →
      p.Tracks (insideAfter tokens) (tokens.flatMap (·.raw)) out → out.length < 2 ^ 62 →
      ∃ ts xs, ScriptTokens document tokens ts ∧ ts.map Prod.fst = xs.map Prod.fst
        ∧ xs.map (fun x => x.2.original) = ts.map Prod.snd ∧ xs.map Prod.snd = p.mappings
        ∧ Ordered document (tokens.flatMap (·.raw)) out xs := by
  induction tokens using List.reverseRecOn generalizing p with
  | nil =>
    intro behind out _ htracks _
    cases h
    have hout : ([] : Bytes) = out := htracks.written_eq
    exact ⟨[], [], .nil, rfl, rfl, rfl, hout ▸ ordered_nil document⟩
  | append_singleton before t ih =>
    intro behind out hdocument htracks hout
    obtain ⟨q, hrun, hpast⟩ := exists_of_run_concat h
    rw [List.flatMap_append, List.flatMap_singleton] at hdocument ⊢
    obtain ⟨written, -, hq⟩ := copied_of_run hrun
    have hbefore : document = before.flatMap (·.raw) ++ (t.raw ++ behind) := by
      rw [hdocument, List.append_assoc]
    -- the last token is copied, or it is a script that is formatted with what was done before
    rcases past_eq_ok hq hpast with ⟨ht, -, hmappings, hp⟩ | ⟨g, ht, -, hmappings, hg, hp⟩
    · obtain rfl : written ++ t.raw = out := hp.written_eq.symm.trans htracks.written_eq
      rw [List.length_append] at hout
      obtain ⟨ts, xs, hts, hfst, hplaces, hms, hordered⟩ := ih hrun hbefore hq (by omega)
      refine ⟨ts, xs, .other hts fun hs => ?_, hfst, hplaces, hms.trans hmappings.symm,
        hordered.mono _ _⟩
      rw [isScriptText_iff.mpr hs] at ht
      cases ht
    · obtain rfl : written ++ g.code = out := hp.written_eq.symm.trans htracks.written_eq
      have hscript := isScriptText_iff.mp ht
      have hne := hscript.raw_ne_nil
      obtain ⟨us, hus, rfl⟩ := format_eq_ok hg
      have hroom := room_embeddedOptions (o := o) hdocument hne hus hlength hout
      rw [List.length_append] at hout
      obtain ⟨ts, xs, hts, hfst, hplaces, hms, hordered⟩ := ih hrun hbefore hq (by omega)
      refine ⟨_, _, .script hts hscript hus, ?_, ?_, ?_, hordered.script hdocument hne hus⟩
      · rw [List.map_append, List.map_append, hfst, fst_stampedTokens, List.map_map]
        exact congrArg _ (List.map_id _)
      · rw [List.map_append, List.map_append, hplaces, original_embedded hdocument hne hus,
          List.map_map]
        rfl
      · rw [List.map_append, hms, hmappings, snd_stampedTokens hus hroom]

/-- The mappings of a source that is accepted. -/
theorem mappingsInOrder_of_format {o : Options} {source : Bytes} {f : Formatted}
    (h : format o source = .ok f) (ho : Layout.OffsetsBelow o (2 ^ 61))
    (hsource : source.length < 2 ^ 62) (hcode : f.code.length < 2 ^ 62) :
    ∃ tokens, tokenize source = .ok tokens
      ∧ MappingsInOrder ((Layout.mapped tokens).map fun t => (t, o.originalPlace t.start))
        f.mappings
      ∧ ∀ s : SourceMap, s.mappings = #[] →
        WrittenInOrder (s.addAll f.mappings) (Layout.mapped tokens) f.mappings := by
  obtain ⟨tokens, htokens, rfl⟩ := format_eq_ok h
  obtain ⟨hline, hcolumn, hgenerated⟩ := ho
  have hroom : o.Room source.length (formatTokens o tokens).code.length :=
    ⟨by omega, by omega, by omega⟩
  have hfollow := follow_stampedTokens o htokens
  have hlines : ∀ x ∈ stampedTokens o tokens, 1 ≤ x.2.generated.line := by
    intro x hx
    obtain ⟨line, heq, hlow, -⟩ := line_stampedTokens htokens hx
    rw [heq]
    unfold Options.exactLine
    split at hlow <;> split <;> omega
  refine ⟨tokens, htokens, ?_⟩
  rw [← snd_stampedTokens htokens hroom]
  refine ⟨mappingsInOrder_of_follow hfollow ?_ ?_, fun s hs => ?_⟩
  · rw [List.map_map, fst_stampedTokens]
    exact List.map_id _
  · rw [original_stampedTokens htokens hroom, List.map_map]
    rfl
  · rw [← fst_stampedTokens o tokens]
    exact writtenInOrder_of_follow hfollow hlines hs

/-- The mappings of all scripts of a document, however it is split into tokens. -/
theorem mappingsInOrder_of_formatSplit {o : Options} {document : Bytes} {tokens : List MarkupToken}
    {f : FormattedDocument} (hraw : tokens.flatMap (·.raw) = document)
    (h : (formatSplit o document tokens).1 = .ok f) (hdocument : document.length < 2 ^ 62)
    (hcode : f.code.length < 2 ^ 62) :
    ∃ ts, ScriptTokens document tokens ts ∧ MappingsInOrder ts f.mappings
      ∧ ∀ s : SourceMap, s.mappings = #[] →
        WrittenInOrder (s.addAll f.mappings) (ts.map Prod.fst) f.mappings := by
  obtain ⟨q, hq, hwritten, -, hmappings⟩ := exists_run_of_formatSplit h
  obtain ⟨out, -, htracks⟩ := copied_of_run hq
  obtain rfl : f.code = out := hwritten.symm.trans htracks.written_eq
  obtain ⟨ts, xs, hts, hfst, hplaces, hms, hordered⟩ := ordered_of_run hdocument hq
    (by rw [hraw, List.append_nil]) htracks hcode
  refine ⟨ts, hts, ?_⟩
  rw [← hmappings, ← hms, hfst]
  exact ⟨mappingsInOrder_of_follow hordered.follow hfst hplaces,
    fun s hs => writtenInOrder_of_follow hordered.follow hordered.one_le hs⟩

/-- **Mappings come in order, and only empty chunks repeat a place.** The mappings of a source that
is accepted come in the order of the output and of the source, and two that follow each other have
the same place in the output exactly if the first belongs to a chunk of a template literal without
text; then they are equal. The same holds for all scripts of a document together, however it is
split into tokens. So a source map that had no mappings writes them as they come, without those of
such chunks. Start lines and columns are below `2 ^ 61` and texts shorter than `2 ^ 62`, as texts in
memory are. -/
theorem mappings_inOrder (o : Options) :
    (∀ source f, format o source = .ok f → Layout.OffsetsBelow o (2 ^ 61) →
      source.length < 2 ^ 62 → f.code.length < 2 ^ 62 →
      ∃ tokens, tokenize source = .ok tokens
        ∧ MappingsInOrder
          ((Layout.mapped tokens).map fun t => (t, o.originalPlace t.start)) f.mappings
        ∧ ∀ s : SourceMap, s.mappings = #[] →
          WrittenInOrder (s.addAll f.mappings) (Layout.mapped tokens) f.mappings)
    ∧ ∀ document, formatDocument o document = formatSplit o document (Markup.tokens document)
      ∧ (Markup.tokens document).flatMap (·.raw) = document
      ∧ ∀ tokens : List MarkupToken, tokens.flatMap (·.raw) = document →
        ∀ f, (formatSplit o document tokens).1 = .ok f →
          document.length < 2 ^ 62 → f.code.length < 2 ^ 62 →
          ∃ ts, ScriptTokens document tokens ts ∧ MappingsInOrder ts f.mappings
            ∧ ∀ s : SourceMap, s.mappings = #[] →
              WrittenInOrder (s.addAll f.mappings) (ts.map Prod.fst) f.mappings := by
  exact ⟨fun _ _ h ho hsource hcode => mappingsInOrder_of_format h ho hsource hcode,
    fun document => ⟨rfl, Markup.raw_tokens document,
      fun _ hraw _ h hdocument hcode => mappingsInOrder_of_formatSplit hraw h hdocument hcode⟩⟩

/-- A template literal with an empty chunk on each side of its substitution. -/
def sampleEmptyChunks : Bytes := utf8 "\x60$\x7ba\x7d\x60"

/-- A script that is nothing but an empty template literal, and another one on the same line. -/
def sampleScripts : Bytes := utf8 "<script>\x60\x60</script><script>a</script>"

/-- Offsets of an input and an output that lie in other files. -/
def sampleOffsets : Options :=
  { indent := utf8 "  ", originalStartLine := 3, originalStartColumn := 8, generatedStartLine := 2 }

theorem mappings_inOrder_samples :
    (∃ f tokens, format sampleOffsets sampleEmptyChunks = .ok f
        ∧ f.mappings.map (·.generated)
          = [⟨2, 0⟩, ⟨2, 1⟩, ⟨2, 1⟩, ⟨2, 4⟩, ⟨2, 6⟩, ⟨2, 7⟩, ⟨2, 7⟩]
        ∧ MappingsInOrder ((Layout.mapped tokens).map fun t =>
          (t, sampleOffsets.originalPlace t.start)) f.mappings
        ∧ WrittenInOrder (f.sourceMap (utf8 "a.js")) (Layout.mapped tokens) f.mappings)
      ∧ ∃ f ts, (formatDocument { indent := utf8 "  " } sampleScripts).1 = .ok f
        ∧ f.mappings.map (·.generated) = [⟨2, 0⟩, ⟨2, 1⟩, ⟨2, 1⟩, ⟨4, 0⟩]
        ∧ ScriptTokens sampleScripts (Markup.tokens sampleScripts) ts
        ∧ MappingsInOrder ts f.mappings
        ∧ WrittenInOrder (({ file := utf8 "a.html" } : SourceMap).addAll f.mappings)
          (ts.map Prod.fst) f.mappings := by
  refine ⟨?_, ?_⟩
  · have hresult : ((format sampleOffsets sampleEmptyChunks).toOption.any fun f =>
        decide (f.code.length < 100) && f.mappings.map (·.generated)
          == [⟨2, 0⟩, ⟨2, 1⟩, ⟨2, 1⟩, ⟨2, 4⟩, ⟨2, 6⟩, ⟨2, 7⟩, ⟨2, 7⟩]) = true := by
      decide +kernel
    cases hf : format sampleOffsets sampleEmptyChunks with
    | error e =>
      rw [hf] at hresult
      cases hresult
    | ok f =>
      rw [hf] at hresult
      obtain ⟨hcode, hgenerated⟩ := Bool.and_eq_true_iff.mp hresult
      have hlength : f.code.length < 100 := of_decide_eq_true hcode
      have hsource : sampleEmptyChunks.length < 100 := by decide +kernel
      obtain ⟨tokens, -, horder, hwritten⟩ := (mappings_inOrder sampleOffsets).1
        sampleEmptyChunks f hf ⟨by decide, by decide, by decide⟩ (by omega) (by omega)
      exact ⟨f, tokens, rfl, eq_of_beq hgenerated, horder, hwritten { file := utf8 "a.js" } rfl⟩
  · have hresult : ((formatDocument { indent := utf8 "  " } sampleScripts).1.toOption.any fun f =>
        decide (f.code.length < 100) && f.mappings.map (·.generated)
          == [⟨2, 0⟩, ⟨2, 1⟩, ⟨2, 1⟩, ⟨4, 0⟩]) = true := by
      decide +kernel
    obtain ⟨heq, hraw, hall⟩ := (mappings_inOrder { indent := utf8 "  " }).2 sampleScripts
    cases hf : (formatDocument { indent := utf8 "  " } sampleScripts).1 with
    | error e =>
      rw [hf] at hresult
      cases hresult
    | ok f =>
      rw [hf] at hresult
      obtain ⟨hcode, hgenerated⟩ := Bool.and_eq_true_iff.mp hresult
      have hlength : f.code.length < 100 := of_decide_eq_true hcode
      have hdocument : sampleScripts.length < 100 := by decide +kernel
      rw [heq] at hf
      obtain ⟨ts, hts, horder, hwritten⟩ := hall _ hraw f hf (by omega) (by omega)
      exact ⟨f, ts, rfl, eq_of_beq hgenerated, hts, horder, hwritten { file := utf8 "a.html" } rfl⟩

end ScriptTidy
