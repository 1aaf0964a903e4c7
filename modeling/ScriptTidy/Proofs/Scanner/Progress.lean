import ScriptTidy.Proofs.Scanner.Cover
import ScriptTidy.Proofs.Scanner.Nesting
import ScriptTidy.Proofs.Scanner.Spells

/-!
# The scanner makes progress

Calling the scanner again and again never gets stuck and never reaches beyond its data, whatever
the source is. Each call returns a token that takes at least a byte, or an empty template chunk
with its delimiter next, or else the scan is over: a scanner that has failed keeps its error, and
one that has reached the end keeps returning it.

The pieces of text that the scanner cuts out of the source are in range, and so are the looks
into the stack of contexts: `stackAfter?` takes from an explicit stack, which may run out, and
never does. Single characters need no such proof, for `Cursor.peek?` and `Cursor.next?` look only
where one is left.

The loop ends because of a potential that falls with everything a step returns. The number of
characters ahead alone does not do, since empty chunks do not move, so each character counts
twice and the chance of an empty chunk once.

* `stackAfter?_stack` : the explicit stack never runs out.
* `Stepped.potential_lt` : a step pays for its comments and its token.
* `exists_stops` : the loop ends in time.
* `run_progress` : all of it, for every source and every call.
-/

namespace ScriptTidy

/-! ## The stack of contexts -/

namespace Situation

/-- All that is open, innermost first, with the outermost block at the bottom. -/
def stack (s : Situation) : List Context := s.opened ++ [.block]

/-- The innermost context and what is below it. An empty stack has none. -/
def pop? : List Context → Option (Context × List Context)
  | [] => none
  | c :: rest => some (c, rest)

/-- Closes a context, and with the body of a function the function. The bottom is not closed. The
flag tells whether an expression may follow. -/
def closeStack? (stack : List Context) : Option (List Context × Bool) :=
  if stack.length = 1 then some (stack, true)
  else do
    let (closed, rest) ← pop? stack
    let (outer, below) ← pop? rest
    if closed = .block && outer.isFunction then some (below, !outer.isExpr)
    else some (rest, !closed.isExpr)

/-- What a token of kind `kind` after one of kind `prev` does to the stack, if that does not run
out. -/
def stackAfter? (s : Situation) (kind prev : Kind) (stack : List Context) :
    Option (List Context) :=
  if kind.isKeyword && prev = .punct .dot then some stack
  else match kind with
    | .punct .parenR | .punct .braceR => (closeStack? stack).map (·.1)
    | .punct .braceL => some ((if s.braceIsBlock prev then .block else .object) :: stack)
    | .punct .dollarBraceL => some (.substitution :: stack)
    | .punct .parenL => some ((if prev ∈ headWords then .head else .group) :: stack)
    | .keyword .functionKw | .keyword .classKw =>
      some ((if s.functionIsExpr prev then .functionExpr else .declaration) :: stack)
    | .punct .backQuote => do
      let (innermost, rest) ← pop? stack
      if innermost = .template then some rest else some (.template :: stack)
    | _ => some stack

theorem getLast?_stack (s : Situation) : s.stack.getLast? = some .block := by
  unfold stack
  simp

/-- Closing never takes from an empty stack, and never takes the bottom. -/
theorem closeStack?_stack (s : Situation) :
    closeStack? s.stack = some (s.closing.stack, s.closing.exprAllowed) := by
  obtain ⟨opened, exprAllowed, newlineBefore⟩ := s
  unfold closing closeStack? stack
  cases opened with
  | nil => rfl
  | cons closed rest =>
    have hlong : ((closed :: rest) ++ [Context.block]).length ≠ 1 := by simp
    rw [if_neg hlong]
    cases rest with
    | nil => cases closed <;> rfl
    | cons outer rest => cases closed <;> cases outer <;> rfl

/-- The innermost context is on top of the stack. -/
theorem pop?_stack (s : Situation) : ∃ rest, pop? s.stack = some (s.innermost, rest)
    ∧ (s.innermost = .template → rest = s.opened.tail ++ [.block]) := by
  unfold stack innermost
  cases s.opened with
  | nil => exact ⟨[], rfl, fun h => by cases h⟩
  | cons c rest => exact ⟨rest ++ [.block], rfl, fun _ => rfl⟩

/-- **No token makes the stack run out**, and the outermost block stays at its bottom. -/
theorem stackAfter?_stack (s : Situation) (kind prev : Kind) (value : Bytes) :
    s.stackAfter? kind prev s.stack = some (s.after kind prev value).stack := by
  have hparens : (s.after (.punct .parenL) prev value).opened =
      (if prev ∈ headWords then .head else .group) :: s.opened :=
    opened_parenL (a := ⟨.punct .parenL, value, prev, s.newlineBefore⟩) rfl
  unfold stackAfter? after
  by_cases hdot : (kind.isKeyword && prev = .punct .dot) = true
  · rw [if_pos hdot, if_pos hdot]
    rfl
  rw [if_neg hdot, if_neg hdot]
  -- the tokens that change the stack, one by one, and then all the others
  split
  · rw [closeStack?_stack]
    rfl
  · rw [closeStack?_stack]
    rfl
  · rfl
  · rfl
  · exact congrArg (fun opened => some (opened ++ [.block])) hparens.symm
  · rfl
  · rfl
  · obtain ⟨rest, hpop, htail⟩ := s.pop?_stack
    rw [hpop]
    dsimp only [Option.bind_eq_bind, Option.bind_some]
    by_cases htemplate : s.innermost = .template
    · rw [if_pos htemplate, if_pos htemplate, htail htemplate]
      rfl
    · rw [if_neg htemplate, if_neg htemplate]
      rfl
  · split
    · contradiction
    · contradiction
    · contradiction
    · contradiction
    · contradiction
    · rfl
    · rfl
    · contradiction
    · contradiction
    · contradiction
    · rfl
    · rfl

end Situation

namespace Scanner

open Cursor

variable {source : Bytes} {s : Scanner} {step : Step} {c d : Cursor} {t : Token} {ts : List Token}

/-- The scanner after so many calls. -/
def afterCalls : (count : Nat) → Scanner → Scanner
  | 0, s => s
  | count + 1, s => afterCalls count s.next.scanner

/-! ## What holds between two calls -/

/-- The scanner stands in the source, and behind a chunk of a template literal stands the delimiter
of the chunk. -/
structure Sound (source : Bytes) (s : Scanner) : Prop where
  reaches : (Cursor.ofSource source).Reaches s.cursor
  chunk : s.prev = .template → s.situation.innermost = .template → chunkEnds s.cursor = true

theorem sound_ofSource (source : Bytes) : (Scanner.ofSource source).Sound source where
  reaches := (ofSource_within source).reaches
  chunk h := by cases h

theorem Sound.decoding (h : s.Sound source) : Utf8.IsDecoding s.cursor.rest :=
  h.reaches.isDecoding (Utf8.isDecoding_glyphs source)

theorem readToken_kind_ne_template {exprAllowed : Bool} (hdec : Utf8.IsDecoding c.rest)
    (hstops : TriviaEnds c) (h : readToken exprAllowed c = .ok (t, d)) : t.kind ≠ .template := by
  rcases (readToken_sound hdec hstops.comment h).lexeme with ⟨hkind, _, _⟩ | ⟨_, hlexeme, _⟩
  · rw [hkind]
    exact Kind.noConfusion
  · exact hlexeme.ordinary.2.2

theorem Stepped.sound (hs : s.Sound source) (h : Stepped s step) : step.scanner.Sound source := by
  cases h with
  | failed => exact ⟨hs.reaches, hs.chunk⟩
  | chunk hinner hprev hread =>
    exact ⟨hs.reaches.trans (readChunk_reaches hread), fun _ _ => readChunk_ends hread⟩
  | delimiter hinner hprev hp hlabel =>
    exact ⟨hs.reaches.trans (reaches_advanceBy _ _), fun h => by cases h⟩
  | @token comments newline c d t hinner hpasses hcomments hstops hread =>
    have hdec := hpasses.reaches.isDecoding hs.decoding
    have hreach := ((readToken_within _ c).token t d hread).2
    exact ⟨hs.reaches.trans (hpasses.reaches.trans hreach),
      fun h => absurd h (readToken_kind_ne_template hdec hstops hread)⟩

theorem next_of_failure {e : LexError} (h : s.failure = some e) : s.next = ⟨[], .error e, s⟩ := by
  unfold next
  rw [h]

theorem Sound.next (hs : s.Sound source) : s.next.scanner.Sound source := by
  cases hf : s.failure with
  | none => exact (next_stepped hf hs.decoding).sound hs
  | some e =>
    rw [next_of_failure hf]
    exact hs

theorem Sound.afterCalls (hs : s.Sound source) (n : Nat) : (s.afterCalls n).Sound source := by
  induction n generalizing s with
  | zero => exact hs
  | succ n ih => exact ih hs.next

/-! ## Pieces of text -/

/-- The comments and the token that a step returns. -/
def Step.shown (step : Step) : List Token := step.comments ++ step.outcome.toOption.toList

/-- The part of the source that the value of a token is cut from, if it is cut out at all. -/
def valueSpan? (t : Token) : Option (Int × Int) :=
  match t.kind with
  | .num | .regexp | .template => some (t.start.offset, t.stop.offset)
  | .lineComment | .hashbang => some (t.start.offset + 2, t.stop.offset)
  | .blockComment => some (t.start.offset + 2, t.stop.offset - 2)
  | _ => none

/-- If the value of the token is cut from the source, it is cut from a part that is in range. -/
def CutFrom (source : Bytes) (t : Token) : Prop :=
  ∀ span ∈ valueSpan? t, slice? source span.1 span.2 = some t.value

/-- A piece out of the middle of a piece. -/
theorem slice?_inner {a b : Int} {x v y : Bytes} (h : slice? source a b = some (x ++ v ++ y)) :
    slice? source (a + x.length) (b - y.length) = some v := by
  unfold slice? at h ⊢
  split at h
  next hrange =>
    rw [Option.some.injEq] at h
    have hlength := congrArg List.length h
    simp only [List.length_take, List.length_drop, List.length_append] at hlength
    rw [if_pos (by omega), Option.some.injEq]
    have hstart : (a + x.length).toNat = a.toNat + x.length := by omega
    have hwidth : (b - y.length - (a + x.length)).toNat = v.length := by omega
    have hsource : source.drop a.toNat =
        x ++ v ++ y ++ (source.drop a.toNat).drop (b - a).toNat := by
      rw [← h, List.take_append_drop]
    rw [hstart, hwidth, ← List.drop_drop, hsource, List.append_assoc, List.append_assoc,
      List.drop_left, List.take_left]
  next => cases h

theorem Taken.cutFrom (h : Taken c t d) (hc : (Cursor.ofSource source).Reaches c) :
    CutFrom source t := by
  obtain ⟨text, htext, hwritten⟩ := h.slice hc
  obtain ⟨kind, value, start, stop⟩ := t
  dsimp only at htext
  have hopened : ∀ o : Bytes, o.length = 2 → text = o ++ value →
      slice? source (start.offset + 2) stop.offset = some value := by
    intro o ho htexteq
    have hinner := slice?_inner (x := o) (v := value) (y := []) (by simpa [htexteq] using htext)
    rw [ho] at hinner
    simpa using hinner
  intro span hspan
  -- comments are cut out without their marks, the other kinds with all of their text
  unfold valueSpan? at hspan
  dsimp only at hspan ⊢
  split at hspan
  · cases hspan
    exact htext.trans (congrArg some hwritten)
  · cases hspan
    exact htext.trans (congrArg some hwritten)
  · cases hspan
    exact htext.trans (congrArg some hwritten)
  · cases hspan
    exact hopened _ rfl hwritten
  · cases hspan
    exact hopened _ rfl hwritten
  · cases hspan
    rw [show text = utf8 "/*" ++ value ++ utf8 "*/" from hwritten] at htext
    exact slice?_inner htext
  · cases hspan

/-- **All values that a call returns are cut out of the source in range.** -/
theorem Sound.cutFrom (hs : s.Sound source) : ∀ t ∈ s.next.shown, CutFrom source t := by
  obtain ⟨d, hpasses, htoken⟩ := next_passes hs.decoding
  intro t ht
  rcases List.mem_append.mp ht with ht | ht
  · obtain ⟨x, y, hx, htaken⟩ := hpasses.taken t ht
    exact htaken.cutFrom (hs.reaches.trans hx)
  · have houtcome : s.next.outcome = .ok t := by
      cases h : s.next.outcome with
      | error e =>
        rw [h] at ht
        cases ht
      | ok u =>
        rw [h] at ht
        rw [List.mem_singleton.mp (show t ∈ [u] from ht)]
    rcases htoken t houtcome with ⟨hends, _⟩ | htaken
    · intro span hspan
      rw [hends.token] at hspan
      cases hspan
    · exact htaken.cutFrom (hs.reaches.trans hpasses.reaches)

/-! ## Behind the end, behind an error, behind an empty chunk -/

/-- The scanner has reached the end of the source at the cursor. -/
structure AtEnd (c : Cursor) (s : Scanner) : Prop where
  failure : s.failure = none
  atStart : s.atStart = false
  cursor : s.cursor = c
  rest : c.rest = []
  ordinary : s.situation.innermost ≠ .template

theorem AtEnd.next (h : s.AtEnd c) :
    s.next.outcome = .ok (bareToken .eof c c) ∧ s.next.scanner.AtEnd c := by
  have htrivia : readTrivia false c = ⟨[], false, .ok c⟩ :=
    readTrivia_here (triviaEnds_of_nil h.rest)
  rw [next_of_ordinary h.failure h.atStart h.ordinary, h.cursor, htrivia]
  dsimp only
  rw [readToken_of_nil h.rest, finish_ok]
  exact ⟨rfl, h.failure, rfl, rfl, h.rest, h.ordinary⟩

/-- **Behind the end every call returns the end.** -/
theorem AtEnd.afterCalls (h : s.AtEnd c) (n : Nat) :
    (s.afterCalls n).next.outcome = .ok (bareToken .eof c c) := by
  induction n generalizing s with
  | zero => exact h.next.1
  | succ n ih => exact ih h.next.2

/-- A step that returns the end has reached it. -/
theorem Stepped.atEnd (hs : s.Sound source) (hf : s.failure = none) (h : Stepped s step)
    (ht : step.outcome = .ok t) (hkind : t.kind = .eof) :
    ∃ d, t = bareToken .eof d d ∧ step.scanner.AtEnd d := by
  cases h with
  | failed => cases ht
  | chunk =>
    cases ht
    cases hkind
  | delimiter =>
    cases ht
    cases hkind
  | @token comments newline c d u hinner hpasses hcomments hstops hread =>
    cases ht
    have hdec := hpasses.reaches.isDecoding hs.decoding
    rcases readToken_taken hdec hstops hread with ⟨hends, hd⟩ | htaken
    · obtain ⟨hrest, rfl⟩ := hends
      exact ⟨c, rfl, hf, rfl, hd, hrest, hinner⟩
    · exact absurd hkind htaken.kind

/-- **Behind an error every call returns it.** -/
theorem afterCalls_of_failure {e : LexError} (h : s.failure = some e) (n : Nat) :
    (s.afterCalls n).next.outcome = .error e := by
  induction n with
  | zero =>
    rw [Scanner.afterCalls, next_of_failure h]
  | succ n ih =>
    rw [Scanner.afterCalls, next_of_failure h]
    exact ih

theorem Stepped.failure {e : LexError} (h : Stepped s step) (he : step.outcome = .error e) :
    step.scanner.failure = some e := by
  cases h with
  | failed =>
    cases he
    rfl
  | chunk => cases he
  | delimiter => cases he
  | token => cases he

/-- Where less is left to read, the offset is larger. -/
theorem offset_lt_of_reaches (hdec : Utf8.IsDecoding c.rest) (h : c.Reaches d)
    (hlt : d.rest.length < c.rest.length) : c.offset < d.offset := by
  obtain ⟨gs, hgs⟩ := h
  have hbytes := bytes_ne_nil_of_reads hgs (hgs.isDecoding_left hdec) hlt
  have hpos := List.length_pos_iff.mpr hbytes
  rw [hgs.offset_eq]
  omega

/-- Where not less is left to read, nothing was read. -/
theorem eq_of_reaches (h : c.Reaches d) (hle : c.rest.length ≤ d.rest.length) : d = c := by
  obtain ⟨gs, hgs⟩ := h
  have hnil : gs = [] := by
    have hlength := congrArg List.length hgs.rest_eq
    rw [List.length_append] at hlength
    exact List.eq_nil_of_length_eq_zero (by omega)
  rw [hnil] at hgs
  exact hgs.eq_of_nil

/-- What a call may return: an error, which stays; the end, which stays; a token that takes at
least a byte; or an empty chunk, with its delimiter next and in the same place. -/
def Progresses (s : Scanner) : Prop :=
  match s.next.outcome with
  | .error e => ∀ n, (s.next.scanner.afterCalls n).next.outcome = .error e
  | .ok t =>
    (t.kind = .eof ∧ ∀ n, (s.next.scanner.afterCalls n).next.outcome = .ok t)
      ∨ t.start.offset < t.stop.offset
      ∨ t.kind = .template ∧ t.stop = t.start ∧ ∃ u, s.next.scanner.next.outcome = .ok u
          ∧ (u.kind = .punct .backQuote ∨ u.kind = .punct .dollarBraceL) ∧ u.start = t.start

theorem Taken.offset_lt (hdec : Utf8.IsDecoding c.rest) (h : Taken c t d)
    (hlt : d.rest.length < c.rest.length) : t.start.offset < t.stop.offset := by
  rw [h.start, h.stop]
  exact Int.ofNat_lt.mpr (offset_lt_of_reaches hdec h.reaches hlt)

/-- A chunk that is empty leaves the scanner in front of its delimiter. -/
theorem delimiter_of_chunk (hf : s.failure = none) (hs : s.situation.innermost = .template)
    (hends : chunkEnds s.cursor = true) :
    ∃ u, (s.behind false (rawToken .template s.cursor s.cursor) s.cursor).next.outcome = .ok u
      ∧ (u.kind = .punct .backQuote ∨ u.kind = .punct .dollarBraceL)
      ∧ u.start = s.cursor.position := by
  obtain ⟨p, hp, _, hdelim⟩ := readChunkDelimiter_eq hends
  rw [next_delimiter (s := s.behind false (rawToken .template s.cursor s.cursor) s.cursor)
    hf hs rfl hends hdelim]
  refine ⟨_, rfl, ?_, rfl⟩
  rcases hp with rfl | rfl
  · exact Or.inl rfl
  · exact Or.inr rfl

/-- **Each call makes progress.** -/
theorem Sound.progresses (hs : s.Sound source) : s.Progresses := by
  unfold Progresses
  cases hf : s.failure with
  | some e =>
    rw [next_of_failure hf]
    exact afterCalls_of_failure hf
  | none =>
    have hstep := next_stepped hf hs.decoding
    generalize s.next = step at hstep
    cases hout : step.outcome with
    | error e => exact afterCalls_of_failure (hstep.failure hout)
    | ok t =>
      dsimp only
      by_cases hkind : t.kind = .eof
      · obtain ⟨d, rfl, hend⟩ := hstep.atEnd hs hf hout hkind
        exact Or.inl ⟨rfl, hend.afterCalls⟩
      refine Or.inr ?_
      cases hstep with
      | failed => cases hout
      | @chunk d hinner hprev hread =>
        cases hout
        have htaken := chunk_taken hs.decoding hread
        -- a chunk may be empty, and then the next call takes its delimiter
        by_cases hlt : d.rest.length < s.cursor.rest.length
        · exact Or.inl (htaken.offset_lt hs.decoding hlt)
        · obtain rfl := eq_of_reaches htaken.reaches (Nat.le_of_not_lt hlt)
          exact Or.inr ⟨rfl, rfl, delimiter_of_chunk hf hinner (readChunk_ends hread)⟩
      | delimiter hinner hprev hp hlabel =>
        cases hout
        have htaken := delimiter_taken hs.decoding hlabel
        exact Or.inl (htaken.offset_lt hs.decoding (htaken.advances Kind.noConfusion))
      | token hinner hpasses hcomments hstops hread =>
        cases hout
        have hdec := hpasses.reaches.isDecoding hs.decoding
        rcases readToken_taken hdec hstops hread with ⟨hends, _⟩ | htaken
        · rw [hends.token] at hkind
          exact absurd rfl hkind
        · exact Or.inl (htaken.offset_lt hdec
            (htaken.advances (readToken_kind_ne_template hdec hstops hread)))

/-! ## The loop ends -/

/-- Twice the characters ahead, and one more where a chunk may come that is empty. -/
def potential (s : Scanner) : Nat :=
  2 * s.cursor.rest.length
    + if s.prev = .template ∧ s.situation.innermost = .template then 0 else 1

theorem potential_le (s : Scanner) : s.potential ≤ 2 * s.cursor.rest.length + 1 := by
  unfold potential
  split
  · exact Nat.le_succ _
  · exact Nat.le_refl _

theorem potential_of_ne_template (h : s.prev ≠ .template ∨ s.situation.innermost ≠ .template) :
    s.potential = 2 * s.cursor.rest.length + 1 := by
  have hnot : ¬ (s.prev = .template ∧ s.situation.innermost = .template) := by
    rcases h with h | h
    · exact fun hboth => h hboth.1
    · exact fun hboth => h hboth.2
  unfold potential
  rw [if_neg hnot]

theorem potential_of_template (hprev : s.prev = .template)
    (hs : s.situation.innermost = .template) : s.potential = 2 * s.cursor.rest.length := by
  unfold potential
  rw [if_pos ⟨hprev, hs⟩, Nat.add_zero]

theorem Sound.potential_pos (hs : s.Sound source) : 0 < s.potential := by
  unfold potential
  split
  next hchunk =>
    have := List.length_pos_iff.mpr (rest_ne_nil_of_chunkEnds (hs.chunk hchunk.1 hchunk.2))
    omega
  next => omega

/-- Each comment takes a character. -/
theorem Passes.length_le (h : Passes c ts d) (hts : ∀ t ∈ ts, t.isComment = true) :
    ts.length + d.rest.length ≤ c.rest.length := by
  induction h with
  | here => exact Nat.le_of_eq (Nat.zero_add _)
  | gap hn _ _ ih =>
    have hlt := next?_length hn
    have hle := ih hts
    omega
  | @token c d e t ts htaken _ ih =>
    have hkind : t.kind ≠ .template := by
      intro hk
      have hcomment := hts t List.mem_cons_self
      rw [Token.isComment_of_kind hk] at hcomment
      cases hcomment
    have hlt := htaken.advances hkind
    have hle := ih fun u hu => hts u (List.mem_cons_of_mem _ hu)
    rw [List.length_cons]
    omega

/-- **A step pays for its comments and its token**, the end of the source included. -/
theorem Stepped.potential_lt (hs : s.Sound source) (h : Stepped s step)
    (ht : step.outcome = .ok t) :
    step.comments.length + 1 ≤ s.potential
      ∧ (t.kind ≠ .eof → step.comments.length + 1 + step.scanner.potential ≤ s.potential) := by
  have hpos := hs.potential_pos
  cases h with
  | failed => cases ht
  | @chunk d hinner hprev hread =>
    cases ht
    -- no chunk follows a chunk, so this one was still to be paid for
    have hbefore : s.potential = 2 * s.cursor.rest.length + 1 :=
      potential_of_ne_template (Or.inl fun hp => hprev ⟨hp, hs.chunk hp hinner⟩)
    have hafter : (s.behind false (rawToken .template s.cursor d) d).potential =
        2 * d.rest.length := potential_of_template rfl hinner
    have hle := (readChunk_reaches hread).suffix.length_le
    refine ⟨hpos, fun _ => ?_⟩
    rw [hafter, hbefore, List.length_nil]
    omega
  | @delimiter p hinner hprev hp hlabel =>
    cases ht
    have hbefore := potential_of_template hprev hinner
    have hafter := potential_le (s.behind false
      (bareToken (.punct p) s.cursor (s.cursor.advanceBy p.label.length))
      (s.cursor.advanceBy p.label.length))
    have hlt := (delimiter_taken hs.decoding hlabel).advances Kind.noConfusion
    refine ⟨hpos, fun _ => ?_⟩
    rw [hbefore, List.length_nil]
    dsimp only [behind] at hafter ⊢
    omega
  | @token comments newline c d u hinner hpasses hcomments hstops hread =>
    cases ht
    have hbefore := potential_of_ne_template (s := s) (Or.inr hinner)
    have hafter := potential_le (s.behind newline t d)
    have hcommentsLe := hpasses.length_le hcomments
    have hdec := hpasses.reaches.isDecoding hs.decoding
    refine ⟨?_, fun hkind => ?_⟩
    · rw [hbefore]
      dsimp only
      omega
    · rcases readToken_taken hdec hstops hread with ⟨hends, _⟩ | htaken
      · rw [hends.token] at hkind
        exact absurd rfl hkind
      have hlt := htaken.advances (readToken_kind_ne_template hdec hstops hread)
      rw [hbefore]
      dsimp only [behind] at hafter ⊢
      omega

theorem Sound.stepped_of_ok (hs : s.Sound source) (ht : s.next.outcome = .ok t) :
    Stepped s s.next := by
  cases hf : s.failure with
  | none => exact next_stepped hf hs.decoding
  | some e =>
    rw [next_of_failure hf] at ht
    cases ht

/-- The call ends the loop: it returns an error or the end of the source. -/
def Stops (s : Scanner) : Prop := ∀ t, s.next.outcome = .ok t → t.kind = .eof

/-- **The loop ends in time.** -/
theorem exists_stops (hs : s.Sound source) : ∃ n, n < s.potential ∧ (s.afterCalls n).Stops := by
  generalize hbound : s.potential = bound
  induction bound using Nat.strong_induction_on generalizing s with
  | h bound ih =>
    by_cases hstops : s.Stops
    · exact ⟨0, hbound ▸ hs.potential_pos, hstops⟩
    · simp only [Stops, not_forall] at hstops
      obtain ⟨t, ht, hkind⟩ := hstops
      have hlt := ((hs.stepped_of_ok ht).potential_lt hs ht).2 hkind
      obtain ⟨n, hn, hend⟩ := ih s.next.scanner.potential (by omega) hs.next rfl
      exact ⟨n + 1, by omega, hend⟩

/-- More steps than the potential make no difference. -/
theorem collect_congr {fuel fuel' : Nat} (hs : s.Sound source) (h : s.potential ≤ fuel)
    (h' : s.potential ≤ fuel') : collect fuel s = collect fuel' s := by
  induction fuel generalizing s fuel' with
  | zero =>
    have := hs.potential_pos
    omega
  | succ fuel ih =>
    have hpos := hs.potential_pos
    obtain ⟨more, rfl⟩ : ∃ more, fuel' = more + 1 := ⟨fuel' - 1, by omega⟩
    rw [collect, collect]
    cases hout : s.next.outcome with
    | error e => rfl
    | ok t =>
      dsimp only
      by_cases hkind : t.kind = .eof
      · rw [if_pos hkind, if_pos hkind]
      · have hlt := ((hs.stepped_of_ok hout).potential_lt hs hout).2 hkind
        have hrest : collect fuel s.next.scanner = collect more s.next.scanner :=
          ih hs.next (by omega) (by omega)
        rw [if_neg hkind, if_neg hkind, hrest]

/-- **The potential bounds the number of tokens**, comments included. -/
theorem length_le_potential {fuel : Nat} (hs : s.Sound source) (h : collect fuel s = .ok ts) :
    ts.length ≤ s.potential := by
  induction fuel generalizing s ts with
  | zero =>
    cases h
    exact Nat.zero_le _
  | succ fuel ih =>
    obtain ⟨t, ht, hcases⟩ := collect_succ_eq_ok.mp h
    obtain ⟨hend, hgo⟩ := (hs.stepped_of_ok ht).potential_lt hs ht
    rcases hcases with ⟨_, rfl⟩ | ⟨hkind, us, hus, rfl⟩
    · rw [List.length_append]
      exact hend
    · have hle := ih hs.next hus
      have hlt := hgo hkind
      rw [List.length_append, List.length_cons]
      omega

theorem potential_ofSource_le (source : Bytes) :
    (Scanner.ofSource source).potential ≤ 2 * source.length + 1 := by
  have hsuffix := (ofSource_within source).reaches.suffix.length_le
  have hglyphs := length_glyphs_le source
  have hle := potential_le (Scanner.ofSource source)
  have hstart : (Cursor.ofSource source).rest = Utf8.glyphs source := rfl
  rw [hstart] at hsuffix
  omega

/-! ## All calls -/

/-- What holds of a call: the texts it returns are cut from the source in range, the outermost
block is at the bottom of the stack, a token does not make the stack run out, and there is
progress. -/
structure GoesWell (source : Bytes) (s : Scanner) : Prop where
  cut : ∀ t ∈ s.next.shown, CutFrom source t
  bottom : s.situation.stack.getLast? = some .block
  stack : ∀ t, s.next.outcome = .ok t → ∃ newline,
    ({ s.situation with newlineBefore := newline } : Situation).stackAfter? t.kind s.prev
      s.situation.stack = some s.next.scanner.situation.stack
  progress : s.Progresses

theorem Stepped.stack (h : Stepped s step) (ht : step.outcome = .ok t) : ∃ newline,
    ({ s.situation with newlineBefore := newline } : Situation).stackAfter? t.kind s.prev
      s.situation.stack = some step.scanner.situation.stack := by
  have hafter : ∀ (newline : Bool) (u : Token) (d : Cursor),
      ({ s.situation with newlineBefore := newline } : Situation).stackAfter? u.kind s.prev
        s.situation.stack = some (s.behind newline u d).situation.stack :=
    fun newline u d =>
      Situation.stackAfter?_stack { s.situation with newlineBefore := newline } _ _ u.value
  cases h with
  | failed => cases ht
  | chunk =>
    cases ht
    exact ⟨_, hafter _ _ _⟩
  | delimiter =>
    cases ht
    exact ⟨_, hafter _ _ _⟩
  | token =>
    cases ht
    exact ⟨_, hafter _ _ _⟩

theorem Sound.goesWell (hs : s.Sound source) : s.GoesWell source where
  cut := hs.cutFrom
  bottom := s.situation.getLast?_stack
  stack _ ht := (hs.stepped_of_ok ht).stack ht
  progress := hs.progresses

/-- **The scanner makes progress.** Every call on every source goes well, the loop over the tokens
ends within twice the length of the source and one more calls, so that the bound on its steps
makes no difference, and there are no more tokens and comments than that. -/
theorem run_progress (source : Bytes) :
    (∀ n, ((Scanner.ofSource source).afterCalls n).GoesWell source)
      ∧ (∃ n, n ≤ 2 * source.length ∧ ((Scanner.ofSource source).afterCalls n).Stops)
      ∧ (∀ fuel, 2 * source.length + 1 ≤ fuel →
        collect fuel (Scanner.ofSource source) = tokenize source)
      ∧ ∀ tokens, tokenize source = .ok tokens → tokens.length ≤ 2 * source.length + 1 := by
  have hsound := sound_ofSource source
  have hbound := potential_ofSource_le source
  refine ⟨fun n => (hsound.afterCalls n).goesWell, ?_, fun fuel hfuel => ?_,
    fun tokens htokens => ?_⟩
  · obtain ⟨n, hn, hstops⟩ := exists_stops hsound
    exact ⟨n, by omega, hstops⟩
  · exact collect_congr hsound (by omega) hbound
  · exact Nat.le_trans (length_le_potential hsound htokens) hbound

end Scanner

end ScriptTidy
