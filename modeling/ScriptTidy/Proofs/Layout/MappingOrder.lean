import ScriptTidy.Proofs.Layout.TemplateText
import ScriptTidy.Proofs.Layout.TokenOrder
import ScriptTidy.Proofs.LineMap.Columns
import ScriptTidy.Proofs.SourceMap.Repeats

/-!
# The order of mappings

Tokens are written in the order in which they stand in the source, and what is written for a token
is not empty, so that the texts of two tokens do not start at one place. A chunk of a template
literal is the only exception: nothing is written between it and its delimiter, and if it has no
text then both start at one place, in the source as well.

* `Place.behind_ne` : what is written takes a place.
* `stampedFrom` : the tokens that have mappings with the places of their texts.
* `Ahead`, `TextsFollow` : what holds of tokens that follow each other.
* `textsFollow_of_lexed` : the run lemma, from one lemma for each kind of step.
* `follow_stampedTokens` : the mappings of a source.
* `MappingsInOrder`, `WrittenInOrder` : what order means for mappings and for a source map.
-/

namespace ScriptTidy

open Scanner

/-! ## Places -/

namespace Place

variable {p q : Place} {text : Bytes} {pieces : List Bytes}

theorem utf16Units_pos (h : text ≠ []) : 0 < utf16Units text := by
  have hbytes := Utf8.bytes_glyphs text
  unfold utf16Units Utf8.chars
  cases hglyphs : Utf8.glyphs text with
  | nil =>
    rw [hglyphs] at hbytes
    exact absurd hbytes.symm h
  | cons g gs =>
    have hpos := LineMap.utf16Width_pos g.char
    rw [List.map_cons, List.map_cons, List.sum_cons]
    omega

/-- **What is written takes a place.** -/
theorem behind_ne (h : text ≠ []) : p ≠ p.behind text := by
  intro heq
  rw [behind_eq] at heq
  by_cases hmem : (0x0A : UInt8) ∈ text
  · have hline : p.line = p.line + text.count 0x0A := congrArg Place.line heq
    have hpos := List.count_pos_iff.mpr hmem
    omega
  · rw [if_neg hmem] at heq
    have hcolumn : p.column = p.column + utf16Units text := congrArg Place.column heq
    have hpos := utf16Units_pos h
    omega

theorem behind_nil (p : Place) : p.behind [] = p := by
  unfold behind Utf8.chars
  rw [Utf8.glyphs_nil]
  rfl

theorem behindAll_of_flatten_eq_nil (h : pieces.flatten = []) : p.behindAll pieces = p := by
  induction pieces with
  | nil => rfl
  | cons piece pieces ih =>
    rw [List.flatten_cons, List.append_eq_nil_iff] at h
    obtain ⟨rfl, hrest⟩ := h
    show (p.behind []).behindAll pieces = p
    rw [behind_nil]
    exact ih hrest

/-- Lines are counted by line feeds, however the text is cut into pieces. -/
theorem line_behindAll (p : Place) (pieces : List Bytes) :
    (p.behindAll pieces).line = p.line + pieces.flatten.count 0x0A := by
  induction pieces generalizing p with
  | nil => exact (Int.add_zero p.line).symm
  | cons piece pieces ih =>
    have hpieces := ih (p.behind piece)
    rw [behind_eq] at hpieces
    rw [List.flatten_cons, List.count_append, Int.natCast_add, ← Int.add_assoc, ← hpieces,
      ← behind_eq]
    rfl

end Place

namespace Layout

variable {indent : Bytes} {s : LayoutState} {p : Place} {t : Token} {tokens rest : List Token}

/-! ## Tokens with the places of their texts -/

/-- The tokens that have mappings, each with the place in the output at which its text starts. -/
def stampedFrom (indent : Bytes) : LayoutState → Place → List Token → List (Token × Place)
  | _, _, [] => []
  | s, p, t :: rest =>
    let (e, s) := step indent s t rest.head?
    (e.original.toList.map fun _ => (t, p.behindAll e.gap))
      ++ stampedFrom indent s (((p.behindAll e.gap).behind e.text).behindAll e.after) rest

theorem placed_eq_stampedFrom (tokens : List Token) : ∀ (s : LayoutState) (p : Place),
    placed p (emissionsFrom indent s tokens)
      = (stampedFrom indent s p tokens).map fun x => (x.2, x.1.start) := by
  induction tokens with
  | nil => exact fun _ _ => rfl
  | cons t rest ih =>
    intro s p
    rw [emissionsFrom, placed, stampedFrom, List.map_append, ih, original_step]
    split <;> rfl

theorem fst_stampedFrom (tokens : List Token) : ∀ (s : LayoutState) (p : Place),
    (stampedFrom indent s p tokens).map Prod.fst = mapped tokens := by
  induction tokens with
  | nil => exact fun _ _ => rfl
  | cons t rest ih =>
    intro s p
    rw [stampedFrom, mapped_cons, List.map_append, ih, original_step]
    split <;> rfl

theorem stampedFrom_cons_of_plain (hcomment : t.isComment = false) (hne : t.kind ≠ .eof) :
    stampedFrom indent s p (t :: rest) = (t, p.behindAll (step indent s t rest.head?).1.gap)
      :: stampedFrom indent (step indent s t rest.head?).2
        (((p.behindAll (step indent s t rest.head?).1.gap).behind
          (step indent s t rest.head?).1.text).behindAll (step indent s t rest.head?).1.after)
        rest := by
  rw [stampedFrom]
  dsimp only
  rw [original_step, if_neg (not_or.mpr ⟨Bool.eq_false_iff.mp hcomment, hne⟩)]
  rfl

theorem stampedFrom_cons_of_unmapped (h : t.isComment = true ∨ t.kind = .eof) :
    stampedFrom indent s p (t :: rest) = stampedFrom indent (step indent s t rest.head?).2
      (((p.behindAll (step indent s t rest.head?).1.gap).behind
        (step indent s t rest.head?).1.text).behindAll (step indent s t rest.head?).1.after)
      rest := by
  rw [stampedFrom]
  dsimp only
  rw [original_step, if_pos h]
  rfl

/-- Texts start at or behind the place where writing starts. -/
theorem le_stampedFrom (hp : 0 ≤ p.column) :
    ∀ x ∈ stampedFrom indent s p tokens, p.le x.2 = true ∧ 0 ≤ x.2.column := by
  intro x hx
  have hmem : (x.2, x.1.start) ∈ placed p (emissionsFrom indent s tokens) := by
    rw [placed_eq_stampedFrom]
    exact List.mem_map_of_mem hx
  have honward := (onward_placed (emissionsFrom indent s tokens) hp).1 _ hmem
  exact ⟨honward.le, honward.column⟩

/-- Texts start on lines that have been started. -/
theorem line_placed_le (es : List Emission) : ∀ {p : Place},
    ∀ x ∈ placed p es, x.1.line ≤ p.line + (es.flatMap Emission.bytes).count 0x0A := by
  induction es with
  | nil => exact fun x hx => by cases hx
  | cons e rest ih =>
    intro p x hx
    have hgap := Place.line_behindAll p e.gap
    rw [placed] at hx
    rw [List.flatMap_cons, List.count_append, Emission.bytes, List.count_append, List.count_append]
    rcases List.mem_append.mp hx with hx | hx
    · obtain ⟨start, -, rfl⟩ := List.mem_map.mp hx
      dsimp only
      omega
    · have hrest := ih x hx
      rw [Place.line_behindAll, Place.behind_eq] at hrest
      dsimp only at hrest
      omega

/-! ## One token behind the other -/

/-- The text of the token `y` starts behind that of the token `x`, or at the same place if `x` is a
chunk without text. Then `y` is the delimiter that stands right behind the chunk. -/
structure Ahead (x y : Token × Place) : Prop where
  le : x.2.le y.2 = true
  same : x.2 = y.2 ↔ x.1.isEmptyChunk = true
  start : x.1.isEmptyChunk = true → y.1.start = x.1.stop

/-- A text that is not empty lies before all that is written behind it. -/
theorem ahead_of_text {text : Bytes} {after : List Bytes} {q : Place} (hq : 0 ≤ q.column)
    (hchunk : t.isEmptyChunk = false) (htext : text ≠ []) {y : Token × Place}
    (hy : y ∈ stampedFrom indent s ((q.behind text).behindAll after) tokens) : Ahead (t, q) y := by
  have hbehind := Place.onward_behind hq text
  have hafter := Place.onward_behindAll hbehind.column after
  have hle : (q.behind text).le y.2 = true :=
    Place.le_trans _ _ _ hafter.le (le_stampedFrom hafter.column y hy).1
  refine ⟨Place.le_trans _ _ _ hbehind.le hle, ⟨fun heq => ?_, fun h => ?_⟩, fun h => ?_⟩
  · have hq' : y.2 = q := heq.symm
    rw [hq'] at hle
    exact absurd (Place.le_antisymm hbehind.le hle) (Place.behind_ne htext)
  · rw [hchunk] at h
    cases h
  · rw [hchunk] at h
    cases h

theorem text_ne_nil {exprAllowed : Bool} (h : Lexeme exprAllowed t.kind t.value) : t.text ≠ [] := by
  obtain ⟨g, r, hglyphs, -⟩ := text_startsAs h []
  rw [List.append_nil] at hglyphs
  intro hnil
  rw [hnil, Utf8.glyphs_nil] at hglyphs
  cases hglyphs

/-- A chunk and its delimiter. -/
theorem ahead_chunk {u : Token} {q : Place} {after gap : List Bytes} (hq : 0 ≤ q.column)
    (ht : t.kind = .template) (hnext : u.start = t.stop)
    (hnothing : after.flatten ++ gap.flatten = []) :
    Ahead (t, q) (u, ((q.behind t.value).behindAll after).behindAll gap) := by
  obtain ⟨hafter, hgap⟩ := List.append_eq_nil_iff.mp hnothing
  rw [Place.behindAll_of_flatten_eq_nil hgap, Place.behindAll_of_flatten_eq_nil hafter]
  refine ⟨(Place.onward_behind hq t.value).le, ⟨fun heq => ?_, fun hempty => ?_⟩, fun _ => hnext⟩
  · by_cases hvalue : t.value = []
    · exact Token.isEmptyChunk_iff.mpr ⟨ht, hvalue⟩
    · exact absurd heq (Place.behind_ne hvalue)
  · obtain ⟨-, hvalue⟩ := Token.isEmptyChunk_iff.mp hempty
    show q = q.behind t.value
    rw [show t.value = [] from hvalue, Place.behind_nil]

/-- Tokens with what belongs to them follow each other, and the last one is no chunk without
text. -/
structure Follow {α : Type} (R : Token × α → Token × α → Prop) (xs : List (Token × α)) : Prop where
  chain : xs.IsChain R
  last : ∀ x ∈ xs.getLast?, x.1.isEmptyChunk = false

theorem Follow.cons {α : Type} {R : Token × α → Token × α → Prop} {x : Token × α}
    {xs : List (Token × α)} (h : Follow R xs) (hx : ∀ y ∈ xs.head?, R x y)
    (hchunk : xs = [] → x.1.isEmptyChunk = false) : Follow R (x :: xs) := by
  refine ⟨List.isChain_cons.mpr ⟨hx, h.chain⟩, fun y hy => ?_⟩
  cases xs with
  | nil =>
    cases hy
    exact hchunk rfl
  | cons z xs =>
    rw [List.getLast?_cons_cons] at hy
    exact h.last y hy

/-- The texts of the tokens start one behind the other, whatever was written before them. -/
def TextsFollow (indent : Bytes) (tokens : List Token) : Prop :=
  ∀ (s : LayoutState) (p : Place), 0 ≤ p.column → Follow Ahead (stampedFrom indent s p tokens)

theorem column_emission (hp : 0 ≤ p.column) (e : Emission) :
    0 ≤ (p.behindAll e.gap).column
      ∧ 0 ≤ (((p.behindAll e.gap).behind e.text).behindAll e.after).column := by
  have hgap := (Place.onward_behindAll hp e.gap).column
  have htext := (Place.onward_behind hgap e.text).column
  exact ⟨hgap, (Place.onward_behindAll htext e.after).column⟩

theorem TextsFollow.unmapped (hrest : TextsFollow indent rest)
    (h : t.isComment = true ∨ t.kind = .eof) : TextsFollow indent (t :: rest) := by
  intro s p hp
  rw [stampedFrom_cons_of_unmapped h]
  exact hrest _ _ (column_emission hp _).2

/-- A token whose text is not empty. -/
theorem TextsFollow.text (hrest : TextsFollow indent rest) (hcomment : t.isComment = false)
    (hne : t.kind ≠ .eof) (hkind : t.kind ≠ .template)
    (htext : ∀ (s : LayoutState) (next : Option Token), (step indent s t next).1.text ≠ []) :
    TextsFollow indent (t :: rest) := by
  have hchunk : t.isEmptyChunk = false := by
    unfold Token.isEmptyChunk
    rw [beq_eq_false_iff_ne.mpr hkind, Bool.false_and]
  intro s p hp
  obtain ⟨hgap, hmore⟩ := column_emission hp (step indent s t rest.head?).1
  rw [stampedFrom_cons_of_plain hcomment hne]
  refine (hrest _ _ hmore).cons (fun y hy => ?_) fun _ => hchunk
  exact ahead_of_text hgap hchunk (htext s _) (List.mem_of_mem_head? hy)

/-- A chunk, with nothing written between it and its delimiter. -/
theorem TextsFollow.chunk {u : Token} (hrest : TextsFollow indent (u :: rest))
    (ht : t.kind = .template) (haround : AroundChunk t.kind u.kind) (hstop : u.start = t.stop) :
    TextsFollow indent (t :: u :: rest) := by
  have hcomment : t.isComment = false := Token.isComment_of_kind ht
  have hne : t.kind ≠ .eof := by rw [ht]; exact Kind.noConfusion
  obtain ⟨-, hucomment, -, hune⟩ := haround.ordinary
  intro s p hp
  -- an empty chunk has the place of its delimiter, in the output as in the source
  have hnothing := haround.step_gap hstop indent s rest.head?
  rw [if_neg (by rw [ht]; exact Kind.noConfusion)] at hnothing
  have htext : (step indent s t (some u)).1.text = t.value := by
    rw [text_step hcomment hne fun hk => by rw [ht] at hk; cases hk]
    unfold Token.text
    rw [ht]
  obtain ⟨hgap, hmore⟩ := column_emission hp (step indent s t (some u)).1
  rw [stampedFrom_cons_of_plain hcomment hne]
  refine (hrest _ _ hmore).cons (fun y hy => ?_) fun hnil => ?_
  · rw [stampedFrom_cons_of_plain hucomment hune] at hy
    cases hy
    rw [List.head?_cons, htext]
    exact ahead_chunk hgap ht hstop hnothing
  · rw [stampedFrom_cons_of_plain hucomment hune] at hnil
    cases hnil

/-- **Texts start one behind the other**, by induction on the stream of tokens. -/
theorem textsFollow_of_lexed {situation : Situation} {prev : Kind} {last : Option Token}
    {seen : Bool} (h : Lexed situation prev last seen tokens) : TextsFollow indent tokens := by
  induction h with
  | comment _ ht _ _ ih => exact ih.unmapped (.inl ht.isComment.1)
  | @chunk _ _ _ _ t u q rest _ _ _ ht _ hu hvalue hstop hchunk _ ih =>
    have hcomment : u.isComment = false := Token.isComment_of_kind hu
    have hne : u.kind ≠ .eof := by rw [hu]; exact Kind.noConfusion
    -- the delimiter is a token with a text, and the chunk is put in front of it
    have htext : ∀ (s : LayoutState) (next : Option Token),
        (step indent s u next).1.text ≠ [] := by
      intro s next
      rw [text_step hcomment hne fun hk => by rw [hu] at hk; cases hk]
      exact (ascii_punct hu hvalue).1
    have hrest : TextsFollow indent (u :: rest) :=
      ih.text hcomment hne (by rw [hu]; exact Kind.noConfusion) htext
    exact hrest.chunk ht (.inr ⟨ht, hchunk.kind hu⟩) hstop
  | @token _ _ _ _ t rest _ _ ht _ _ ih =>
    obtain ⟨hcomment, hne, hkind⟩ := ht.ordinary
    refine ih.text hcomment hne hkind fun s next => ?_
    rw [text_step hcomment hne (value_ne_nil_of_isKeyword ht)]
    exact text_ne_nil ht
  | eof _ ht _ _ =>
    have hnone : TextsFollow indent [] := fun _ _ _ => ⟨.nil, fun x hx => by cases hx⟩
    exact hnone.unmapped (.inr ht)

theorem textsFollow_of_lexedSource (h : LexedSource tokens) : TextsFollow indent tokens := by
  cases h with
  | plain hlexed => exact textsFollow_of_lexed hlexed
  | hashbang ht _ hlexed =>
    exact (textsFollow_of_lexed hlexed).unmapped (.inl (Token.isComment_of_kind ht))

end Layout

/-! ## Offsets -/

namespace Options

variable {o : Options}

theorem exactGenerated_inj {p q : Place} :
    o.exactGenerated p = o.exactGenerated q ↔ p = q := by
  refine ⟨fun h => ?_, congrArg _⟩
  have hline : exactLine o.generatedStartLine p.line = exactLine o.generatedStartLine q.line :=
    congrArg Place.line h
  have hcolumn : (o.exactGenerated p).column = (o.exactGenerated q).column :=
    congrArg Place.column h
  have hlines : p.line = q.line := by
    unfold exactLine at hline
    split at hline <;> omega
  show (⟨p.line, p.column⟩ : Place) = ⟨q.line, q.column⟩
  rw [hlines]
  exact congrArg (Place.mk q.line) hcolumn

/-- Offsets keep the order of positions: all positions of the first line are moved alike. -/
theorem exactOriginal_le {p q : Position} (hp : 1 ≤ p.line) (h : p.place.le q.place = true) :
    (o.exactOriginal p).le (o.exactOriginal q) = true := by
  unfold Position.place at h
  rw [Place.le_iff] at h ⊢
  unfold exactOriginal exactLine
  dsimp only at h ⊢
  by_cases hstart : 0 < o.originalStartLine
  · rw [if_pos hstart, if_pos hstart]
    split <;> split <;> omega
  · rw [if_neg hstart, if_neg hstart]
    split <;> split <;> omega

end Options

/-! ## Mappings -/

/-- The mapping of the token `y` comes behind that of the token `x`, in the output and in the
input. -/
structure Mapping.Precedes (x y : Token × Mapping) : Prop
    extends Mapping.Successive Token.isEmptyChunk x y where
  original : x.2.original.le y.2.original = true

theorem isChain_and {α : Type} {R S : α → α → Prop} {xs : List α} (hR : xs.IsChain R)
    (hS : xs.IsChain S) : xs.IsChain fun x y => R x y ∧ S x y := by
  rw [List.isChain_iff_getElem] at hR hS ⊢
  exact fun i hi => ⟨hR i hi, hS i hi⟩

section Source

open Layout (stampedFrom Follow)
open Mapping (Precedes)

variable {o : Options} {source : Bytes} {tokens : List Token}

/-- The tokens that have mappings, with these. -/
def stampedTokens (o : Options) (tokens : List Token) : List (Token × Mapping) :=
  (stampedFrom o.indent {} (Place.behind ⟨1, 0⟩ (if o.leadingNewline then [0x0A] else []))
    tokens).map fun x => (x.1, o.exactMapping (x.2, x.1.start))

theorem fst_stampedTokens (o : Options) (tokens : List Token) :
    (stampedTokens o tokens).map Prod.fst = Layout.mapped tokens := by
  rw [stampedTokens, List.map_map]
  exact Layout.fst_stampedFrom tokens _ _

theorem placedTokens_eq_stampedFrom (h : tokenize source = .ok tokens) :
    placedTokens o tokens = (stampedFrom o.indent {}
      (Place.behind ⟨1, 0⟩ (if o.leadingNewline then [0x0A] else [])) tokens).map
        fun x => (x.2, x.1.start) := by
  rw [placedTokens, Layout.emissions_of_lexedSource o.indent (tokenize_lexed h)]
  exact Layout.placed_eq_stampedFrom tokens _ _

theorem snd_stampedTokens (h : tokenize source = .ok tokens)
    (hroom : o.Room source.length (formatTokens o tokens).code.length) :
    (stampedTokens o tokens).map Prod.snd = (formatTokens o tokens).mappings := by
  have hwithin := liesWithin_placedTokens (o := o) h
  have hmappings : (formatTokens o tokens).mappings = (placedTokens o tokens).map o.exactMapping :=
    (Layout.mappingsFrom_eq_placed _ _ _).trans
      (List.map_congr_left fun x hx => hroom.mapping_eq (hwithin x hx))
  rw [hmappings, placedTokens_eq_stampedFrom h, stampedTokens, List.map_map, List.map_map]
  rfl

/-- **The mappings of a source come in order.** -/
theorem follow_stampedTokens (o : Options) (h : tokenize source = .ok tokens) :
    Follow Precedes (stampedTokens o tokens) := by
  have hlead := Place.onward_behind (p := ⟨1, 0⟩) (Int.le_refl 0)
    (if o.leadingNewline then [0x0A] else [])
  have hfst : (stampedFrom o.indent {}
      (Place.behind ⟨1, 0⟩ (if o.leadingNewline then [0x0A] else [])) tokens).map Prod.fst
        = Layout.mapped tokens := Layout.fst_stampedFrom tokens _ _
  obtain ⟨hchain, hlast⟩ := Layout.textsFollow_of_lexedSource (tokenize_lexed h) {} _ hlead.column
  obtain ⟨hstarts, hstops, hempty⟩ := inOrder_tokenize h
  rw [← hfst] at hstarts hstops hempty
  have hlines : ∀ x ∈ stampedFrom o.indent {}
      (Place.behind ⟨1, 0⟩ (if o.leadingNewline then [0x0A] else [])) tokens,
      1 ≤ x.1.start.line := by
    intro x hx
    have hmem : x.1 ∈ Layout.mapped tokens := hfst ▸ List.mem_map_of_mem hx
    exact (tokenize_covers h x.1 (List.mem_filter.mp hmem).1).1.within.1
  unfold stampedTokens
  refine ⟨(List.isChain_map _).mpr ?_, fun y hy => ?_⟩
  · -- the output orders the generated places, and the scan the original ones
    have hboth := isChain_and hchain (List.pairwise_map.mp hstarts).isChain
    refine hboth.imp_of_mem_imp fun x y hx _ hxy => ?_
    obtain ⟨⟨hle, hsame, hstart⟩, horder⟩ := hxy
    refine ⟨⟨Options.exactGenerated_le hle, Options.exactGenerated_inj.trans hsame, ?_⟩,
      Options.exactOriginal_le (hlines x hx) horder⟩
    intro hchunk
    have hstop : x.1.stop = x.1.start := hempty x.1 (List.mem_map_of_mem hx) hchunk
    show o.exactMapping (x.2, x.1.start) = o.exactMapping (y.2, y.1.start)
    rw [hsame.mpr hchunk, hstart hchunk, hstop]
  · rw [List.getLast?_map] at hy
    obtain ⟨x, hx, rfl⟩ := Option.map_eq_some_iff.mp hy
    exact hlast x hx

/-- The mappings of a source lie on the lines of the output. -/
theorem line_stampedTokens (h : tokenize source = .ok tokens) {x : Token × Mapping}
    (hx : x ∈ stampedTokens o tokens) : ∃ line : Int,
      x.2.generated.line = Options.exactLine o.generatedStartLine line
        ∧ 1 + (if o.leadingNewline then 1 else 0) ≤ line
        ∧ line ≤ 1 + (formatTokens o tokens).code.count 0x0A := by
  obtain ⟨y, hy, rfl⟩ := List.mem_map.mp hx
  have hmem : (y.2, y.1.start) ∈ placedTokens o tokens := by
    rw [placedTokens_eq_stampedFrom h]
    exact List.mem_map_of_mem hy
  have hlead := Place.onward_behind (p := ⟨1, 0⟩) (Int.le_refl 0)
    (if o.leadingNewline then [0x0A] else [])
  have hlow := Place.line_le ((Layout.onward_placed _ hlead.column).1 _ hmem).le
  have hhigh := Layout.line_placed_le _ _ hmem
  have hcode : (formatTokens o tokens).code.count 0x0A
      = (if o.leadingNewline then [0x0A] else [] : Bytes).count 0x0A
        + ((Layout.emissions o.indent tokens).flatMap Emission.bytes).count 0x0A :=
    List.count_append
  rw [Place.behind_eq] at hlow hhigh
  dsimp only at hlow hhigh
  refine ⟨y.2.line, rfl, ?_, by omega⟩
  by_cases hnewline : o.leadingNewline = true
  · rw [if_pos hnewline] at hlow ⊢
    exact hlow
  · rw [if_neg hnewline] at hlow ⊢
    exact hlow

/-- A mapping goes back to the start of its token. -/
theorem original_stampedTokens (h : tokenize source = .ok tokens)
    (hroom : o.Room source.length (formatTokens o tokens).code.length) :
    (stampedTokens o tokens).map (fun x => x.2.original)
      = (Layout.mapped tokens).map fun t => o.originalPlace t.start := by
  have hmappings : (formatTokens o tokens).mappings.map (·.original)
      = (placedTokens o tokens).map fun x => o.originalPlace x.2 := by
    show (Layout.mappingsFrom o _ _).map _ = _
    rw [Layout.mappingsFrom_eq_placed, List.map_map]
    rfl
  rw [← snd_stampedTokens h hroom, placedTokens_eq_stampedFrom h, List.map_map, List.map_map]
    at hmappings
  refine hmappings.trans ?_
  rw [← fst_stampedTokens o tokens, stampedTokens, List.map_map, List.map_map]
  rfl

end Source

/-! ## What order means -/

/-- The mappings `ms` belong to the tokens `ts`, which are given with their places in the input, and
come in the order of the output and in that of the input. Two that follow each other have the same
place in the output exactly if the first one belongs to a chunk without text, and then they are
equal. -/
structure MappingsInOrder (ts : List (Token × Place)) (ms : List Mapping) : Prop where
  places : ms.map (·.original) = ts.map Prod.snd
  generated : ms.Pairwise fun m n => m.generated.le n.generated
  original : ms.Pairwise fun m n => m.original.le n.original
  same : ∀ i m n t, ms[i]? = some m → ms[i + 1]? = some n → ts[i]? = some t →
    (m.generated = n.generated ↔ t.1.isEmptyChunk = true) ∧ (t.1.isEmptyChunk = true → m = n)

/-- The source map writes the mappings `ms` of the tokens `ts` in the order they have, without those
of chunks without text, and one segment for each of the others. -/
structure WrittenInOrder (s : SourceMap) (ts : List Token) (ms : List Mapping) : Prop where
  sorted : s.sorted = ms
  pieces : s.pieces
    = s.piecesFrom {} (((ts.zip ms).filter fun x => !x.1.isEmptyChunk).map Prod.snd)
  segments : s.pieces.countP MapPiece.isSegment + ts.countP Token.isEmptyChunk = ms.length

section Order

open Mapping (Precedes)

variable {xs : List (Token × Mapping)} {ts : List (Token × Place)}

theorem pairwise_of_isChain {f : Mapping → Place}
    (h : xs.IsChain fun x y => (f x.2).le (f y.2) = true) :
    (xs.map Prod.snd).Pairwise fun m n => (f m).le (f n) = true := by
  have htrans : IsTrans (Token × Mapping) fun x y => (f x.2).le (f y.2) = true :=
    ⟨fun _ _ _ => Place.le_trans _ _ _⟩
  exact List.pairwise_map.mpr (List.isChain_iff_pairwise.mp h)

theorem mappingsInOrder_of_follow (h : Layout.Follow Precedes xs)
    (hts : ts.map Prod.fst = xs.map Prod.fst)
    (hplaces : xs.map (fun x => x.2.original) = ts.map Prod.snd) :
    MappingsInOrder ts (xs.map Prod.snd) where
  places := by
    rw [← hplaces, List.map_map]
    rfl
  generated := pairwise_of_isChain (h.chain.imp fun _ _ hxy => hxy.generated)
  original := pairwise_of_isChain (h.chain.imp fun _ _ hxy => hxy.original)
  same i m n t hm hn ht := by
    rw [List.getElem?_map] at hm hn
    obtain ⟨x, hx, rfl⟩ := Option.map_eq_some_iff.mp hm
    obtain ⟨y, hy, rfl⟩ := Option.map_eq_some_iff.mp hn
    have htoken : t.1 = x.1 := by
      have hget := congrArg (·[i]?) hts
      rw [List.getElem?_map, List.getElem?_map, ht, hx] at hget
      exact Option.some.inj hget
    obtain ⟨hi, rfl⟩ := List.getElem?_eq_some_iff.mp hx
    obtain ⟨hi', rfl⟩ := List.getElem?_eq_some_iff.mp hy
    have hxy := h.chain.getElem i hi'
    rw [htoken]
    exact ⟨hxy.same, hxy.equal⟩

theorem writtenInOrder_of_follow {s : SourceMap} (h : Layout.Follow Precedes xs)
    (hlines : ∀ x ∈ xs, 1 ≤ x.2.generated.line) (hs : s.mappings = #[]) :
    WrittenInOrder (s.addAll (xs.map Prod.snd)) (xs.map Prod.fst) (xs.map Prod.snd) := by
  have hsorted : (s.addAll (xs.map Prod.snd)).sorted = xs.map Prod.snd :=
    SourceMap.sorted_addAll hs (pairwise_of_isChain (h.chain.imp fun _ _ hxy => hxy.generated))
  have hchain : xs.IsChain (Mapping.Successive Token.isEmptyChunk) :=
    h.chain.imp fun _ _ hxy => hxy.toSuccessive
  have hstart : ∀ x ∈ xs.head?, ({} : MapState).generatedLine ≤ x.2.generated.line :=
    fun x hx => hlines x (List.mem_of_mem_head? hx)
  obtain ⟨hpieces, hcount⟩ := SourceMap.piecesFrom_filter (s := s.addAll (xs.map Prod.snd)) hchain
    h.last hstart fun x _ hprevious => by cases hprevious
  refine ⟨hsorted, ?_, ?_⟩
  · unfold SourceMap.pieces
    rw [hsorted, hpieces, ← List.zip_of_prod rfl rfl]
  · unfold SourceMap.pieces
    rw [hsorted, List.countP_map, List.length_map]
    exact hcount

end Order

end ScriptTidy
