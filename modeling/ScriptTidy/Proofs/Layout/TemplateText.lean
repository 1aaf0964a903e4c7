import ScriptTidy.Proofs.Layout.Neighbours
import ScriptTidy.Proofs.Scanner.Lockstep
import ScriptTidy.Proofs.Scanner.Lexed

/-!
# The text of template literals

White space in a template literal is a part of its text, so nothing may be written there, and where
the text starts and ends has to be seen without the source. Both are about the same places: a chunk
of text stands between the tokens that delimit it, with nothing else in between.

* `Scanner.holdsDelimiter` : whether a text has a delimiter that no backslash takes away.
* `Scanner.readChunk_holdsDelimiter` : a chunk has none.
* `Scanner.LexedSource.wellPlaced` : what stands around a chunk, and what stands before a
  substitution.
* `Layout.between_chunk` : what is written around a chunk.
* `formatTokens_templates` : both together.
-/

namespace ScriptTidy.Scanner

open Cursor

/-! ## The text of a chunk -/

/-- Whether a text that is read from left to right, without the character behind each backslash, has
a quote or the start of a substitution in it. -/
def holdsDelimiter : List Char → Bool
  | '\\' :: _ :: rest => holdsDelimiter rest
  | '\x60' :: _ => true
  | '$' :: '\x7b' :: _ => true
  | _ :: rest => holdsDelimiter rest
  | [] => false

/-- Behind a character that starts neither an escape nor a delimiter, the text goes on. -/
theorem holdsDelimiter_cons {ch : Char} {rest : List Char} (hescape : ch ≠ '\\')
    (hquote : ch ≠ '\x60') (hdollar : ch = '$' → rest.head? ≠ some '\x7b') :
    holdsDelimiter (ch :: rest) = holdsDelimiter rest := by
  rw [holdsDelimiter]
  · exact fun _ _ h _ => hescape h
  · exact hquote
  · rintro _ rfl rfl
    exact hdollar rfl rfl

/-- A text that does not end in front of a glyph has no delimiter there either. -/
theorem holdsDelimiter_of_not_chunkEnds {c : Cursor} {g : Glyph} {gs rest : List Glyph}
    (hrest : c.rest = g :: (gs ++ rest)) (hends : ¬ chunkEnds c = true) (hescape : g.char ≠ '\\') :
    holdsDelimiter ((g :: gs).map (·.char)) = holdsDelimiter (gs.map (·.char)) := by
  unfold chunkEnds at hends
  rw [peek?_eq_head?, peekSecond?, hrest] at hends
  simp only [Bool.or_eq_true, Bool.and_eq_true, beq_iff_eq, not_or, not_and] at hends
  obtain ⟨hquote, hdollar⟩ := hends
  refine holdsDelimiter_cons hescape (fun h => hquote (congrArg some h)) fun h hhead => ?_
  refine hdollar (congrArg some h) ?_
  cases gs with
  | nil => cases hhead
  | cons k gs => exact hhead

/-- **A chunk has no delimiter in it**: the reader stops at the first. -/
theorem readChunk_holdsDelimiter {start : Position} {c d : Cursor}
    (h : readChunk start c = .ok d) :
    ∃ gs, c.Reads gs d ∧ holdsDelimiter (gs.map (·.char)) = false := by
  have hne := rest_ne_nil_of_chunkEnds (readChunk_ends h)
  fun_induction readChunk start c with
  | case1 => cases h
  | case2 =>
    cases h
    exact ⟨[], Reads.refl _, rfl⟩
  | case3 c e hends hn ih =>
    obtain ⟨g, hg, hchar⟩ := reads_of_next? hn
    obtain ⟨gs, hgs, hholds⟩ := ih h
    -- a character stands behind the backslash, since the delimiter comes later
    obtain ⟨k, rest, hk⟩ : ∃ k rest, e.rest = k :: rest := by
      refine List.exists_cons_of_ne_nil fun hnil => hne ?_
      have hsuffix := (readChunk_reaches h).suffix
      rw [advance_rest, hnil] at hsuffix
      exact List.eq_nil_of_suffix_nil hsuffix
    refine ⟨g :: k :: gs, (hg.trans (reads_advance hk)).trans hgs, ?_⟩
    rw [List.map_cons, hchar]
    exact hholds
  | case4 c ch e hn hends hescape ih =>
    obtain ⟨g, hg, rfl⟩ := reads_of_next? hn
    obtain ⟨gs, hgs, hholds⟩ := ih h
    have hreads := hg.trans hgs
    exact ⟨g :: gs, hreads,
      (holdsDelimiter_of_not_chunkEnds hreads.rest_eq hends hescape).trans hholds⟩

/-- The same, for the text that a token keeps. -/
theorem Chunk.holdsDelimiter_eq_false {value : Bytes} {p : Punctuator} (h : Chunk value p) :
    holdsDelimiter (Utf8.chars value) = false := by
  obtain ⟨c, d, gs, hread, hgs, hdec, rfl, -⟩ := h.read
  obtain ⟨hs, hhs, hholds⟩ := readChunk_holdsDelimiter hread
  obtain rfl : gs = hs := List.append_cancel_right (hgs.rest_eq.symm.trans hhs.rest_eq)
  rw [Utf8.chars, hdec]
  exact hholds

/-! ## What stands around a chunk -/

/-- The text `t` of a template literal stands between `l` and `u`, and right next to both. -/
structure ChunkBetween (l t u : Token) : Prop where
  opens : opensChunk l.kind = true
  start : t.start = l.stop
  stop : u.start = t.stop
  closes : ∃ p, u.kind = .punct p ∧ u.value = [] ∧ Chunk t.value p

/-- What a stream says about the token `t`, which has `left` on its left and `right` on its right: a
chunk is delimited on both sides, and the start of a substitution delimits one. -/
structure WellPlaced (left : Option Token) (t : Token) (right : List Token) : Prop where
  chunk : t.kind = .template → ∃ l u rest, left = some l ∧ right = u :: rest ∧ ChunkBetween l t u
  substitution : t.kind = .punct .dollarBraceL → ∃ c, left = some c ∧ c.kind = .template

/-- Other tokens may stand anywhere. -/
theorem wellPlaced_of_kind {left : Option Token} {t : Token} {right : List Token}
    (htemplate : t.kind ≠ .template) (hdollar : t.kind ≠ .punct .dollarBraceL) :
    WellPlaced left t right :=
  ⟨fun h => absurd h htemplate, fun h => absurd h hdollar⟩

/-- All tokens of a list are well placed, with `left` in front of the first. -/
def AllPlaced (left : Option Token) : List Token → Prop
  | [] => True
  | t :: rest => WellPlaced left t rest ∧ AllPlaced (some t) rest

/-- So is each of them, between what stands before it and what stands behind it. -/
theorem AllPlaced.wellPlaced {left : Option Token} {before after : List Token} {t : Token}
    (h : AllPlaced left (before ++ t :: after)) :
    WellPlaced (left.toList ++ before).getLast? t after := by
  induction before generalizing left with
  | nil =>
    cases left with
    | none => exact h.1
    | some l => exact h.1
  | cons b before ih =>
    rw [List.getLast?_append_of_ne_nil _ (List.cons_ne_nil _ _)]
    exact ih h.2

/-- **All tokens of a stream are well placed**, by induction on the stream. -/
theorem Lexed.allPlaced {situation : Situation} {prev : Kind} {last : Option Token} {seen : Bool}
    {tokens : List Token} (h : Lexed situation prev last seen tokens) : AllPlaced last tokens := by
  induction h with
  | comment _ hfirst _ _ ih =>
    have hcomment := hfirst.isComment.1
    refine ⟨wellPlaced_of_kind (fun h => ?_) fun h => ?_, ih⟩
    · rw [Token.isComment, h] at hcomment
      cases hcomment
    · rw [Token.isComment, h] at hcomment
      cases hcomment
  | @chunk _ _ l _ t u p rest _ hprev hl ht hstart hu hvalue hnext hchunk _ ih =>
    -- the chunk and the delimiter behind it, which each place the other
    refine ⟨⟨fun _ => ⟨l, u, rest, rfl, rfl, hl ▸ hprev, hstart, hnext, p, hu, hvalue, hchunk⟩,
      fun h => ?_⟩, ⟨fun h => ?_, fun _ => ⟨t, rfl, ht⟩⟩, ih⟩
    · rw [ht] at h
      cases h
    · rw [hu] at h
      cases h
  | token _ hfirst _ _ ih =>
    exact ⟨wellPlaced_of_kind hfirst.ordinary.2.2 fun h => (hfirst.value_of_kind.2.2 _ h).1 rfl, ih⟩
  | eof _ hfirst _ _ =>
    refine ⟨wellPlaced_of_kind ?_ ?_, trivial⟩ <;> (rw [hfirst]; exact Kind.noConfusion)

/-- **So are all tokens of a source.** -/
theorem LexedSource.wellPlaced {before after : List Token} {t : Token}
    (h : LexedSource (before ++ t :: after)) : WellPlaced before.getLast? t after := by
  have hall : AllPlaced none (before ++ t :: after) := by
    generalize before ++ t :: after = tokens at h
    cases h with
    | plain hlexed => exact hlexed.allPlaced
    | hashbang hfirst _ hlexed =>
      refine ⟨wellPlaced_of_kind ?_ ?_, hlexed.allPlaced⟩ <;>
        (rw [hfirst]; exact Kind.noConfusion)
  exact hall.wellPlaced

end ScriptTidy.Scanner

namespace ScriptTidy

open Scanner

namespace Layout

/-! ## What is written around a chunk -/

/-- Whatever the layout has in mind in front of `l`, it writes nothing around the text `t` that
stands behind it and in front of `u`, except for a space behind a closing parenthesis. -/
structure KeptTogether (indent : Bytes) (s : LayoutState) (l t u : Token) : Prop where
  before : (step indent s l (some t)).1.after.flatten ++
    (step indent (step indent s l (some t)).2 t (some u)).1.gap.flatten =
      if l.kind = .punct .parenR then [0x20] else []
  behind : ∀ next, (step indent (step indent s l (some t)).2 t (some u)).1.after.flatten ++
    (step indent (step indent (step indent s l (some t)).2 t (some u)).2 u next).1.gap.flatten = []

/-- One step behind a token next to a chunk, from any state. -/
theorem AroundChunk.step_gap {l t : Token} (h : AroundChunk l.kind t.kind)
    (hstart : t.start = l.stop) (indent : Bytes) (s : LayoutState) (next : Option Token) :
    (step indent s l (some t)).1.after.flatten ++
      (step indent (step indent s l (some t)).2 t next).1.gap.flatten =
        if l.kind = .punct .parenR then [0x20] else [] := by
  have hbehind : Behind indent (some l) (some t) (step indent s l (some t)).2
      (step indent s l (some t)).1.after.flatten := .step h.ne_eof
  obtain ⟨hpending, hgap⟩ := hbehind.gap_chunk h hstart next
  rw [hpending, hgap, List.nil_append]
  split <;> rfl

/-- **Between the neighbours, wherever they stand in a list.** -/
theorem between_chunk (o : Options) (before after : List Token) {l t : Token}
    (h : AroundChunk l.kind t.kind) (hstart : t.start = l.stop) :
    between (emissions o.indent (before ++ l :: t :: after)) before.length =
      if l.kind = .punct .parenR then [0x20] else [] := by
  obtain ⟨-, -, -, hne⟩ := h.ordinary
  obtain ⟨s, -, -, hbetween, -⟩ := formatTokens_neighbours o before after l hne
  rw [hbetween]
  exact h.step_gap hstart o.indent s after.head?

/-- In the output for `front`, `l`, `t`, `u` and `rest`, the text `t` stands right between its
neighbours, except for a space behind a closing parenthesis. -/
structure WrittenTogether (o : Options) (front : List Token) (l t u : Token) (rest : List Token) :
    Prop where
  before : between (emissions o.indent (front ++ l :: t :: u :: rest)) front.length =
    if l.kind = .punct .parenR then [0x20] else []
  behind : between (emissions o.indent (front ++ l :: t :: u :: rest)) (front.length + 1) = []
  code : ∃ head tail, (formatTokens o (front ++ l :: t :: u :: rest)).code =
    head ++ l.text ++ (if l.kind = .punct .parenR then [0x20] else []) ++ t.value ++ u.text ++ tail

theorem writtenTogether (o : Options) (front : List Token) {l t u : Token} (rest : List Token)
    (hl : AroundChunk l.kind t.kind) (hu : AroundChunk t.kind u.kind) (ht : t.kind = .template)
    (hstart : t.start = l.stop) (hstop : u.start = t.stop) :
    WrittenTogether o front l t u rest := by
  have hbefore := between_chunk o front (u :: rest) hl hstart
  have hbehind := between_chunk o (front ++ [l]) rest hu hstop
  rw [if_neg (by rw [ht]; exact Kind.noConfusion), List.append_assoc, List.singleton_append,
    List.length_append, List.length_singleton] at hbehind
  refine ⟨hbefore, hbehind, ?_⟩
  obtain ⟨⟨hlcomment, hlkeyword, -⟩, htcomment, htkeyword, htne⟩ := hl.ordinary
  obtain ⟨-, hucomment, hukeyword, hune⟩ := hu.ordinary
  obtain ⟨s, head, -, -, hcode⟩ := formatTokens_neighbours o front (u :: rest) l htne
  have hgap := hu.step_gap hstop o.indent (step o.indent s l (some t)).2 rest.head?
  rw [if_neg (by rw [ht]; exact Kind.noConfusion)] at hgap
  obtain ⟨hafter, hgap⟩ := List.append_eq_nil_iff.mp hgap
  rw [hbefore, List.head?_cons, hafter, bytesBehind_cons fun h => absurd h hune, Emission.bytes,
    hgap, text_step hlcomment hl.ne_eof fun h => absurd h (Bool.eq_false_iff.mp hlkeyword),
    text_step htcomment htne fun h => absurd h (Bool.eq_false_iff.mp htkeyword),
    text_step hucomment hune fun h => absurd h (Bool.eq_false_iff.mp hukeyword)] at hcode
  have htext : t.text = t.value := by
    unfold Token.text
    rw [ht]
  rw [htext, List.nil_append, List.nil_append, ← List.append_assoc, ← List.append_assoc] at hcode
  exact ⟨head, _, hcode.trans (List.append_assoc _ _ _)⟩

end Layout

/-- **Template literals keep their text.** In the tokens of a source, each chunk of text stands
right between a token that it may follow and one that ends it, it has no delimiter of its own, and
nothing is written around it by any formatting, except for a space behind a closing parenthesis. The
start of a substitution always has a chunk before it. -/
theorem formatTokens_templates {source : Bytes} {tokens : List Token}
    (h : tokenize source = .ok tokens) :
    (∀ before t after, tokens = before ++ t :: after → t.kind = .template →
      ∃ front l u rest, before = front ++ [l] ∧ after = u :: rest
        ∧ (l.kind = .punct .backQuote ∨ l.kind = .punct .braceR ∨ l.kind = .punct .parenR)
        ∧ l.stop = t.start
        ∧ (u.kind = .punct .backQuote ∨ u.kind = .punct .dollarBraceL) ∧ u.start = t.stop
        ∧ holdsDelimiter (Utf8.chars t.value) = false
        ∧ (∀ indent s, Layout.KeptTogether indent s l t u)
        ∧ ∀ o, Layout.WrittenTogether o front l t u rest)
    ∧ ∀ before u after, tokens = before ++ u :: after → u.kind = .punct .dollarBraceL →
      ∃ front t, before = front ++ [t] ∧ t.kind = .template := by
  have hlexed := tokenize_lexed h
  refine ⟨fun before t after htokens ht => ?_, fun before u after htokens hu => ?_⟩
  · rw [htokens] at hlexed
    obtain ⟨l, u, rest, hl, rfl, hchunk⟩ := hlexed.wellPlaced.chunk ht
    obtain ⟨front, rfl⟩ := List.getLast?_eq_some_iff.mp hl
    obtain ⟨p, hu, -, hvalue⟩ := hchunk.closes
    have hopens := opensChunk_iff.mp hchunk.opens
    have hcloses := hvalue.kind hu
    -- the chunk has a neighbour of the right kind on either side
    have haround : Layout.AroundChunk l.kind t.kind := Or.inl ⟨hopens, ht⟩
    have haround' : Layout.AroundChunk t.kind u.kind := Or.inr ⟨ht, hcloses⟩
    refine ⟨front, l, u, rest, rfl, rfl, hopens, hchunk.start.symm, hcloses, hchunk.stop,
      hvalue.holdsDelimiter_eq_false, fun indent s => ?_, fun o => ?_⟩
    · refine ⟨haround.step_gap hchunk.start indent s (some u), fun next => ?_⟩
      have hgap := haround'.step_gap hchunk.stop indent (Layout.step indent s l (some t)).2 next
      rw [if_neg (by rw [ht]; exact Kind.noConfusion)] at hgap
      exact hgap
    · exact Layout.writtenTogether o front rest haround haround' ht hchunk.start hchunk.stop
  · rw [htokens] at hlexed
    obtain ⟨t, hlast, ht⟩ := hlexed.wellPlaced.substitution hu
    obtain ⟨front, rfl⟩ := List.getLast?_eq_some_iff.mp hlast
    exact ⟨front, t, rfl, ht⟩

/-- The tokens of a template literal with a substitution, up to its second chunk. -/
def substitutionStart : List Token := [
  ⟨.punct .backQuote, [], ⟨1, 0, 0⟩, ⟨1, 1, 1⟩⟩, ⟨.template, utf8 "a", ⟨1, 1, 1⟩, ⟨1, 2, 2⟩⟩,
  ⟨.punct .dollarBraceL, [], ⟨1, 2, 2⟩, ⟨1, 4, 4⟩⟩, ⟨.name, utf8 "b", ⟨1, 4, 4⟩, ⟨1, 5, 5⟩⟩,
  ⟨.punct .braceR, [], ⟨1, 5, 5⟩, ⟨1, 6, 6⟩⟩]

/-- The second chunk, which has an escaped quote. -/
def escapedChunk : Token := ⟨.template, utf8 " \\\x60", ⟨1, 6, 6⟩, ⟨1, 9, 9⟩⟩

/-- The tokens behind it. -/
def substitutionEnd : List Token :=
  [⟨.punct .backQuote, [], ⟨1, 9, 9⟩, ⟨1, 10, 10⟩⟩, ⟨.eof, [], ⟨1, 10, 10⟩, ⟨1, 10, 10⟩⟩]

/-- A quote behind a backslash is text, and the space before it stays the only one. -/
theorem formatTokens_templates_escaped :
    tokenize (utf8 "\x60a$\x7bb\x7d \\\x60\x60") =
      .ok (substitutionStart ++ escapedChunk :: substitutionEnd)
    ∧ holdsDelimiter (Utf8.chars escapedChunk.value) = false
    ∧ ∃ head tail, (formatTokens { indent := utf8 "  " }
        (substitutionStart ++ escapedChunk :: substitutionEnd)).code =
      head ++ utf8 "\x7d" ++ [] ++ utf8 " \\\x60" ++ utf8 "\x60" ++ tail := by
  have htokens : tokenize (utf8 "\x60a$\x7bb\x7d \\\x60\x60") =
      .ok (substitutionStart ++ escapedChunk :: substitutionEnd) := by decide +kernel
  obtain ⟨front, l, u, rest, hbefore, hafter, -, -, -, -, hholds, -, hwritten⟩ :=
    (formatTokens_templates htokens).1 _ _ _ rfl rfl
  have hsplit : substitutionStart.dropLast ++ [⟨.punct .braceR, [], ⟨1, 5, 5⟩, ⟨1, 6, 6⟩⟩] =
      front ++ [l] := hbefore
  obtain ⟨rfl, hl⟩ := List.append_inj' hsplit rfl
  obtain rfl := List.singleton_inj.mp hl
  obtain ⟨rfl, rfl⟩ := List.cons.inj hafter
  exact ⟨htokens, hholds, (hwritten { indent := utf8 "  " }).code⟩

end ScriptTidy
