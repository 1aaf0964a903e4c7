import Mathlib.Data.List.TakeWhile
import ScriptTidy.Proofs.Scanner.Lexeme
import ScriptTidy.Proofs.Scanner.Trivia

/-!
# The token streams of sources

`Lexed` describes, without the source, what a stream of tokens and comments that came from a
scan looks like: which tokens follow in which situation, where template chunks stand, and what
the lines of neighbouring tokens say about the line ends that the scanner saw. Formatting only
has the tokens, so this is all that proofs about it can use.

* `opensChunk_of_after` : a template chunk is always preceded by a quote or by what closes a
  substitution.
* `Ready.lexed_chunk`, `Ready.lexed_token` : one step of a scan, in the text of a template literal
  and in ordinary code.
* `collect_lexed` : a scan that ends gives such a stream, with the end as its last token.
* `tokenize_lexed` : so does every source that is accepted.
-/

namespace ScriptTidy.Scanner

open Cursor

/-! ## The shape of a stream -/

/-- The kinds behind which the text of a template literal may go on. -/
def opensChunk (kind : Kind) : Bool :=
  kind = .punct .backQuote || kind = .punct .braceR || kind = .punct .parenR

theorem opensChunk_iff {kind : Kind} : opensChunk kind = true ↔
    kind = .punct .backQuote ∨ kind = .punct .braceR ∨ kind = .punct .parenR := by
  simp only [opensChunk, Bool.or_eq_true, decide_eq_true_eq, or_assoc]

/-- The text of a template literal up to one of its delimiters. -/
structure Chunk (value : Bytes) (delimiter : Punctuator) : Prop where
  read : ∃ c d gs, readChunk c.position c = .ok d ∧ c.Reads gs d ∧ Utf8.IsDecoding gs
    ∧ value = gs.flatMap (·.bytes) ∧ d.rest.head?.map (·.char) = delimiter.label.toList.head?
  delimiter : delimiter = .backQuote ∨ delimiter = .dollarBraceL

theorem Chunk.kind {value : Bytes} {p : Punctuator} {u : Token} (h : Chunk value p)
    (hu : u.kind = .punct p) : u.kind = .punct .backQuote ∨ u.kind = .punct .dollarBraceL := by
  rw [hu]
  exact h.delimiter.imp (congrArg Kind.punct) (congrArg Kind.punct)

/-- A comment of ordinary code. -/
def CommentText (kind : Kind) (value : Bytes) : Prop :=
  (kind = .lineComment ∧ holdsLineEnd value = false)
    ∨ (kind = .blockComment ∧ ¬ HoldsCommentEnd value)

theorem CommentText.isComment {t : Token} (h : CommentText t.kind t.value) :
    t.isComment = true ∧ t.kind ≠ .eof := by
  unfold Token.isComment
  rcases h with ⟨he, _⟩ | ⟨he, _⟩
  · rw [he]
    exact ⟨rfl, Kind.noConfusion⟩
  · rw [he]
    exact ⟨rfl, Kind.noConfusion⟩

/-- A line ends between the last token, if there is one, and the next. -/
def breaksAfter (last : Option Token) (t : Token) : Bool :=
  last.any fun l => l.stop.line < t.start.line

/-- The kinds of the comments that go up to the end of their line. -/
def fillsLine (kind : Kind) : Bool := kind = .lineComment || kind = .hashbang

theorem isComment_of_fillsLine {kind : Kind} (h : fillsLine kind = true) :
    kind.isComment = true := by
  unfold fillsLine at h
  simp only [Bool.or_eq_true, decide_eq_true_eq] at h
  rcases h with rfl | rfl
  · rfl
  · rfl

/-- The token does not start before the last one ends, and `newline` tells whether a line has
ended since the last token that is no comment, where `seen` tells it for the end of the last
one. Nothing stands on the line of a comment that fills it. -/
structure Follows (last : Option Token) (seen : Bool) (t : Token) (newline : Bool) : Prop where
  order : ∀ l, last = some l → l.stop.line ≤ t.start.line
  lineComment : ∀ l, last = some l → fillsLine l.kind = true →
    l.stop.line < t.start.line ∨ t.kind = .eof
  newline : last.isSome = true → newline = (seen || breaksAfter last t)

/-- What follows in a stream of tokens and comments in the situation `s`, where `prev` is the
kind of the last token that is no comment, `last` the last one of all, and `seen` tells whether
a line has ended between these two. -/
inductive Lexed : Situation → (prev : Kind) → (last : Option Token) → (seen : Bool) →
    List Token → Prop
  | comment {s prev last seen t rest newline} (hs : s.innermost ≠ .template)
    (ht : CommentText t.kind t.value) (hline : Follows last seen t newline)
    (hrest : Lexed s prev (some t) (newline || (t.kind == .blockComment && holdsLineEnd t.value))
      rest) :
    Lexed s prev last seen (t :: rest)
  | chunk {s prev l seen t u p rest} (hs : s.innermost = .template)
    (hprev : opensChunk prev = true) (hl : l.kind = prev) (ht : t.kind = .template)
    (hstart : t.start = l.stop) (hu : u.kind = .punct p) (hvalue : u.value = [])
    (hnext : u.start = t.stop) (hchunk : Chunk t.value p)
    (hrest : Lexed ({ s with exprAllowed := false, newlineBefore := false }.after (.punct p)
      .template []) (.punct p) (some u) false rest) :
    Lexed s prev (some l) seen (t :: u :: rest)
  | token {s prev last seen t rest newline} (hs : s.innermost ≠ .template)
    (ht : Lexeme s.exprAllowed t.kind t.value) (hline : Follows last seen t newline)
    (hrest : Lexed ({ s with newlineBefore := newline }.after t.kind prev t.value) t.kind (some t)
      false rest) :
    Lexed s prev last seen (t :: rest)
  | eof {s prev last seen t newline} (hs : s.innermost ≠ .template) (ht : t.kind = .eof)
    (hvalue : t.value = []) (hline : Follows last seen t newline) :
    Lexed s prev last seen [t]

theorem Lexed.getLast? {s : Situation} {prev : Kind} {last : Option Token} {seen : Bool}
    {tokens : List Token} (h : Lexed s prev last seen tokens) :
    tokens.getLast?.any (·.kind == .eof) = true := by
  have hcons : ∀ (t : Token) {rest : List Token}, rest.getLast?.any (·.kind == .eof) = true →
      (t :: rest).getLast?.any (·.kind == .eof) = true := by
    intro t rest hrest
    cases rest with
    | nil => cases hrest
    | cons u rest => rwa [List.getLast?_cons_cons]
  induction h with
  | comment _ _ _ _ ih => exact hcons _ ih
  | chunk _ _ _ _ _ _ _ _ _ _ ih => exact hcons _ (hcons _ ih)
  | token _ _ _ _ ih => exact hcons _ ih
  | eof _ ht _ _ => simp [ht]

/-- What a token of a stream can be, wherever it stands. -/
inductive StreamItem (t : Token) : Prop
  | comment (h : CommentText t.kind t.value)
  | chunk (h : t.kind = .template)
  | delimiter {p} (hp : p = .backQuote ∨ p = .dollarBraceL) (h : t.kind = .punct p)
  | lexeme {exprAllowed} (h : Lexeme exprAllowed t.kind t.value)
  | eof (h : t.kind = .eof)

theorem Lexed.streamItem {s : Situation} {prev : Kind} {last : Option Token} {seen : Bool}
    {tokens : List Token} {t : Token} (h : Lexed s prev last seen tokens) (ht : t ∈ tokens) :
    StreamItem t := by
  induction h with
  | comment _ htext _ _ ih =>
    rcases List.mem_cons.mp ht with rfl | ht
    · exact .comment htext
    · exact ih ht
  | chunk _ _ _ hkind _ hclose _ _ hchunk _ ih =>
    rcases List.mem_cons.mp ht with rfl | ht
    · exact .chunk hkind
    rcases List.mem_cons.mp ht with rfl | ht
    · exact .delimiter hchunk.delimiter hclose
    · exact ih ht
  | token _ hlexeme _ _ ih =>
    rcases List.mem_cons.mp ht with rfl | ht
    · exact .lexeme hlexeme
    · exact ih ht
  | eof _ hkind _ _ =>
    rw [List.mem_singleton.mp ht]
    exact .eof hkind

/-- **A template literal goes on only behind a quote or what closes a substitution**, if none
was going on before. -/
theorem opensChunk_of_after {s : Situation} {kind prev : Kind} {value : Bytes}
    (hs : s.innermost ≠ .template) (h : (s.after kind prev value).innermost = .template) :
    opensChunk kind = true := by
  have hpush : ∀ (b : Bool) (x y : Context), x ≠ .template → y ≠ .template →
      (if b then x else y) ≠ .template := by
    intro b x y hx hy
    cases b with
    | true => exact hx
    | false => exact hy
  unfold Situation.after at h
  split at h
  · exact absurd h hs
  · split at h
    · rfl
    · rfl
    · exact absurd h (hpush _ _ _ (by decide) (by decide))
    · exact absurd h (show Context.substitution ≠ .template by decide)
    · exact absurd h (hpush _ _ _ (by decide) (by decide))
    · exact absurd h hs
    · exact absurd h hs
    · exact absurd h (hpush _ _ _ (by decide) (by decide))
    · exact absurd h (hpush _ _ _ (by decide) (by decide))
    · rfl
    · exact absurd h hs
    · exact absurd h hs

/-! ## Lines -/

/-- Only a line end that does not go on with a line feed starts a line. -/
theorem line_of_next? {c d : Cursor} {ch : Char} (h : c.next? = some (ch, d)) :
    d.line = if isLineTerminator ch ∧ ¬ (ch = '\r' ∧ d.peek? = some '\n') then c.line + 1
      else c.line := by
  unfold next? at h
  split at h
  next => cases h
  next g rest hr =>
    cases h
    rw [peek?_eq_head?, past_rest]
    unfold past
    simp only [Bool.and_eq_true, beq_iff_eq]
    split
    next hcr => rw [if_neg (fun hn => hn.2 hcr)]
    next hcr =>
      split
      next hl => rw [if_pos ⟨hl, hcr⟩]
      next hl => rw [if_neg (fun hn => hl hn.1)]

/-- What is known about the line ends between the last token and a cursor behind it. In front of
a line feed nothing is said: a carriage return before it was seen, but has not ended the line. -/
structure Between (last : Option Token) (seen newline : Bool) (c : Cursor) : Prop where
  order : ∀ l, last = some l → l.stop.line ≤ c.line
  lineComment : ∀ l, last = some l → fillsLine l.kind = true →
    l.stop.line < c.line ∨ ∀ ch ∈ c.peek?, isLineTerminator ch = true
  newline : ∀ l, last = some l → c.peek? ≠ some '\n' →
    newline = (seen || decide (l.stop.line < c.line))

variable {last : Option Token} {seen newline : Bool} {c d : Cursor}

theorem Between.lineEnd {ch : Char} (h : Between last seen newline c)
    (hn : c.next? = some (ch, d)) (hl : isLineTerminator ch = true) :
    Between last seen true d where
  order l hlast := by
    have hle := h.order l hlast
    have hline := line_of_next? hn
    split at hline <;> omega
  newline l hlast hpeek := by
    have hle := h.order l hlast
    have hline := line_of_next? hn
    rw [if_pos ⟨hl, fun hn => hpeek hn.2⟩] at hline
    rw [decide_eq_true (by omega), Bool.or_true]
  lineComment l hlast _ := by
    have hle := h.order l hlast
    have hline := line_of_next? hn
    by_cases hpair : ch = '\r' ∧ d.peek? = some '\n'
    · refine Or.inr fun x hx => ?_
      obtain rfl : '\n' = x := by simpa [hpair.2] using hx
      decide
    · rw [if_pos ⟨hl, hpair⟩] at hline
      exact Or.inl (by omega)

/-- In front of anything but a line end, the line of a comment that fills it has ended. -/
theorem Between.line_lt_of_fillsLine {l : Token} {ch : Char} (h : Between last seen newline c)
    (hlast : last = some l) (hkind : fillsLine l.kind = true) (hpeek : c.peek? = some ch)
    (hl : isLineTerminator ch = false) : l.stop.line < c.line := by
  rcases h.lineComment l hlast hkind with hlt | hends
  · exact hlt
  · rw [hends ch hpeek] at hl
    cases hl

theorem Between.space {ch : Char} (h : Between last seen newline c)
    (hn : c.next? = some (ch, d)) (hl : isLineTerminator ch = false) :
    Between last seen newline d := by
  have hline := line_of_next? hn
  rw [if_neg (fun hn => by rw [hl] at hn; cases hn.1)] at hline
  refine ⟨fun l hlast => by rw [hline]; exact h.order l hlast,
    fun l hlast hkind => Or.inl ?_, fun l hlast _ => ?_⟩
  · rw [hline]
    exact h.line_lt_of_fillsLine hlast hkind (peek?_of_next? hn).1 hl
  · rw [hline]
    refine h.newline l hlast ?_
    rw [(peek?_of_next? hn).1]
    rintro ⟨⟩
    exact absurd hl (by decide)

theorem Between.follows {t : Token} (h : Between last seen newline c)
    (hpeek : ∀ ch ∈ c.peek?, isLineTerminator ch = false) (ht : t.start = c.position)
    (heof : c.rest = [] → t.kind = .eof) : Follows last seen t newline where
  order l hlast := by
    rw [ht]
    exact h.order l hlast
  newline hsome := by
    obtain ⟨l, rfl⟩ := Option.isSome_iff_exists.mp hsome
    have hne : c.peek? ≠ some '\n' := fun hp => absurd (hpeek '\n' hp) (by decide)
    rw [h.newline l rfl hne, breaksAfter, Option.any_some, ht]
    rfl
  lineComment l hlast hkind := by
    cases hr : c.rest with
    | nil => exact Or.inr (heof hr)
    | cons g gs =>
      have hp : c.peek? = some g.char := by rw [peek?_eq_head?, hr]; rfl
      rw [ht]
      exact Or.inl (h.line_lt_of_fillsLine hlast hkind hp (hpeek _ hp))

theorem between_of_stop {l : Token} (h : l.stop = c.position) (seen : Bool)
    (hline : fillsLine l.kind = true → ∀ ch ∈ c.peek?, isLineTerminator ch = true) :
    Between (some l) seen seen c where
  order k hk := by
    cases hk
    rw [h]
    exact Int.le_refl _
  newline k hk _ := by
    cases hk
    rw [h]
    simp [position]
  lineComment k hk hkind := by
    cases hk
    exact Or.inr (hline hkind)

/-- A comment is followed like any token that starts with a slash. -/
theorem Between.follows_slash {t : Token} (h : Between last seen newline c)
    (hpeek : c.peek? = some '/') (ht : t.start = c.position) : Follows last seen t newline := by
  refine h.follows (fun ch hch => ?_) ht fun hnil => ?_
  · obtain rfl : '/' = ch := by simpa [hpeek] using hch
    decide
  · simp [peek?_eq_head?, hnil] at hpeek

/-! ## Comments -/

theorem peek?_skipWhile (p : Char → Bool) (c : Cursor) :
    ∀ ch ∈ (c.skipWhile p).peek?, p ch = false := by
  intro ch hch
  rw [peek?_eq_head?, skipWhile_rest] at hch
  obtain ⟨g, hg, rfl⟩ := Option.map_eq_some_iff.mp hch
  have hnot := List.head?_dropWhile_not (fun g : Glyph => p g.char) c.rest
  rw [hg] at hnot
  simpa using hnot

theorem skipWhile_advanceBy_two {p : Char → Bool} {a b : Char} (ha : c.peek? = some a)
    (hb : c.peekSecond? = some b) (hpa : p a = true) (hpb : p b = true) :
    c.skipWhile p = (c.advanceBy 2).skipWhile p := by
  have hstep : ∀ {x : Cursor} {ch : Char}, x.peek? = some ch → p ch = true →
      x.skipWhile p = x.advance.skipWhile p := by
    intro x ch hx hp
    obtain ⟨g, gs, hr, rfl⟩ := rest_of_peek? hx
    rw [skipWhile_eq, next?_of_cons hr]
    exact if_pos hp
  rw [hstep ha hpa, hstep (by rw [← peekSecond?_eq]; exact hb) hpb]
  rfl

/-- The two characters that open a comment are skipped like the rest of its line. -/
theorem skipLine_advanceBy_two {a b : Char} (ha : c.peek? = some a) (hb : c.peekSecond? = some b)
    (hla : isLineTerminator a = false) (hlb : isLineTerminator b = false) :
    c.skipWhile (fun ch => !isLineTerminator ch) =
      (c.advanceBy 2).skipWhile fun ch => !isLineTerminator ch :=
  skipWhile_advanceBy_two ha hb (by rw [hla]; rfl) (by rw [hlb]; rfl)

theorem readLineComment_value {kind : Kind} {a b : Char} (hdec : Utf8.IsDecoding c.rest)
    (ha : c.peek? = some a) (hb : c.peekSecond? = some b) (hla : isLineTerminator a = false)
    (hlb : isLineTerminator b = false) :
    holdsLineEnd (readLineComment kind c).1.value = false := by
  have hskip := skipLine_advanceBy_two ha hb hla hlb
  obtain ⟨gs, hgs⟩ := reaches_skipWhile (fun ch => !isLineTerminator ch) (c.advanceBy 2)
  have hdec2 := (reaches_advanceBy 2 c).isDecoding hdec
  have hvalue : (readLineComment kind c).1.value = gs.flatMap (·.bytes) := by
    show (c.advanceBy 2).textTo (c.skipWhile _) = _
    rw [hskip]
    exact hgs.textTo_eq hdec2
  rw [hvalue, holdsLineEnd_glyphs (hgs.isDecoding_left hdec2)]
  have htake : gs = (c.advanceBy 2).rest.takeWhile fun g => !isLineTerminator g.char := by
    have hsplit := List.takeWhile_append_dropWhile
      (p := fun g : Glyph => !isLineTerminator g.char) (l := (c.advanceBy 2).rest)
    rw [← skipWhile_rest (fun ch => !isLineTerminator ch)] at hsplit
    have hrest := hgs.rest_eq
    rw [← hsplit] at hrest
    exact (List.append_cancel_right hrest).symm
  rw [htake, List.any_eq_false]
  intro g hg
  have := List.mem_takeWhile_imp hg
  simpa using this

theorem readTrivia_lexed {s : Situation} {prev : Kind} {rest : List Token}
    (hs : s.innermost ≠ .template) (hdec : Utf8.IsDecoding c.rest)
    (hb : Between last seen newline c) (hok : (readTrivia newline c).outcome = .ok d)
    (hrest : ∀ last' seen', Between last' seen' (readTrivia newline c).newline d →
      Lexed s prev last' seen' rest) :
    Lexed s prev last seen ((readTrivia newline c).comments ++ rest) := by
  fun_induction readTrivia newline c generalizing last seen with
  | case1 newline c hn => cases hok; exact hrest _ _ hb
  | case2 newline c ch e hn hl ih =>
    exact ih ((reaches_next? hn).isDecoding hdec) (hb.lineEnd hn hl) hok hrest
  | case3 newline c ch e hn hl hsp ih =>
    exact ih ((reaches_next? hn).isDecoding hdec) (hb.space hn (Bool.eq_false_iff.mpr hl)) hok
      hrest
  | case4 => cases hok
  -- a line end in the comment counts as one in front of what follows
  | case5 newline c e hp close nl he stop hn hl hsp =>
    rename_i ih
    have hpeek := peek?_of_next? hn
    obtain ⟨gs, hgs, hnl, hclose⟩ := findCommentEnd_sound he
    have hdec2 := (reaches_advanceBy 2 c).isDecoding hdec
    have hdecgs := hgs.isDecoding_left hdec2
    have hvalue : (c.advanceBy 2).textTo close = gs.flatMap (·.bytes) := hgs.textTo_eq hdec2
    have hreach : c.Reaches (close.advanceBy 2) :=
      (reaches_advanceBy 2 c).trans (Reaches.trans ⟨gs, hgs⟩ (reaches_advanceBy 2 close))
    refine .comment hs (Or.inr ⟨rfl, ?_⟩) (hb.follows_slash hpeek.1 rfl) ?_
    · show ¬ HoldsCommentEnd ((c.advanceBy 2).textTo close)
      rw [hvalue, holdsCommentEnd_iff, Utf8.chars, show Utf8.glyphs _ = gs from hdecgs]
      exact hclose
    · show Lexed s prev _ (newline || (true && holdsLineEnd ((c.advanceBy 2).textTo close))) _
      rw [hvalue, holdsLineEnd_glyphs hdecgs, Bool.true_and, ← hnl]
      exact ih (hreach.isDecoding hdec) (between_of_stop rfl nl (fun h => by cases h)) hok hrest
  | case6 newline c e hp hq comment hn hl hsp =>
    rename_i ih
    have hpeek := peek?_of_next? hn
    refine .comment hs (Or.inl ⟨rfl, ?_⟩) (hb.follows_slash hpeek.1 rfl) ?_
    · exact readLineComment_value hdec hpeek.1 (hpeek.2.trans hq) (by decide) (by decide)
    · show Lexed s prev _ (newline || (false && _)) _
      rw [Bool.false_and, Bool.or_false]
      refine ih ((readLineComment_reaches _ c).isDecoding hdec)
        (between_of_stop rfl newline fun _ ch hch => ?_) hok hrest
      have hstop := peek?_skipWhile (fun ch => !isLineTerminator ch) c ch hch
      simpa using hstop
  | case7 newline c => cases hok; exact hrest _ _ hb
  | case8 newline c => cases hok; exact hrest _ _ hb

/-! ## Steps -/

/-- A run ends with the end of the source or goes on behind the token it has read. -/
theorem collect_succ_eq_ok {fuel : Nat} {s : Scanner} {toks : List Token} :
    collect (fuel + 1) s = .ok toks ↔ ∃ t, s.next.outcome = .ok t
      ∧ (t.kind = .eof ∧ toks = s.next.comments ++ [t]
        ∨ t.kind ≠ .eof ∧ ∃ ts, collect fuel s.next.scanner = .ok ts
          ∧ toks = s.next.comments ++ t :: ts) := by
  rw [collect]
  cases s.next.outcome with
  | error e => simp
  | ok t =>
    by_cases ht : t.kind = .eof
    · simp [ht, eq_comm]
    · cases hc : collect fuel s.next.scanner with
      | error e => simp [ht]
      | ok ts =>
        simp only [ht, if_false, Except.ok.injEq, exists_eq_left', false_and, false_or, ne_eq,
          not_false_iff, true_and]
        exact eq_comm

/-- A step that reads one token and no comments, and the rest of the run. -/
theorem collect_of_next {fuel : Nat} {s s' : Scanner} {t : Token} {ts : List Token}
    (hnext : s.next = ⟨[], .ok t, s'⟩) (ht : t.kind ≠ .eof) (h : collect fuel s' = .ok ts) :
    collect (fuel + 1) s = .ok (t :: ts) := by
  refine collect_succ_eq_ok.mpr ⟨t, by rw [hnext], Or.inr ⟨ht, ts, ?_, ?_⟩⟩
  · rw [hnext]
    exact h
  · rw [hnext]
    rfl

/-- The scanner behind the token `t`, which ends at `d`. -/
def behind (s : Scanner) (newline : Bool) (t : Token) (d : Cursor) : Scanner :=
  { s with
    cursor := d
    atStart := false
    prev := t.kind
    situation := { s.situation with newlineBefore := newline }.after t.kind s.prev t.value }

theorem finish_ok (s : Scanner) (newline : Bool) (comments : List Token) (t : Token) (d : Cursor) :
    s.finish newline comments (.ok (t, d)) = ⟨comments, .ok t, s.behind newline t d⟩ := rfl

theorem finish_outcome {s : Scanner} {newline : Bool} {comments : List Token}
    {read : Except LexError (Token × Cursor)} {t : Token}
    (h : (s.finish newline comments read).outcome = .ok t) : ∃ d, read = .ok (t, d) := by
  unfold finish at h
  split at h
  · cases h
  · next u d => cases h; exact ⟨d, rfl⟩

/-- A scanner that has read something and can go on, behind the token `last`, which may be a
comment only if it is of the kind for first lines. -/
structure Ready (s : Scanner) (last : Option Token) : Prop where
  failure : s.failure = none
  atStart : s.atStart = false
  decoding : Utf8.IsDecoding s.cursor.rest
  stop : ∀ l, last = some l → l.stop = s.cursor.position
    ∧ (fillsLine l.kind = true → ∀ ch ∈ s.cursor.peek?, isLineTerminator ch = true)
  template : s.situation.innermost = .template →
    ∃ l, last = some l ∧ l.kind = s.prev ∧ opensChunk s.prev = true

theorem next_of_template {s : Scanner} (hf : s.failure = none)
    (hs : s.situation.innermost = .template) :
    s.next = s.finish false [] (readTemplateToken s.prev s.cursor) := by
  unfold next
  rw [hf]
  exact if_pos hs

theorem next_of_ordinary {s : Scanner} (hf : s.failure = none) (hstart : s.atStart = false)
    (hs : s.situation.innermost ≠ .template) :
    s.next = match (readTrivia false s.cursor).outcome with
      | .error e => s.finish (readTrivia false s.cursor).newline
          (readTrivia false s.cursor).comments (.error e)
      | .ok c => s.finish (readTrivia false s.cursor).newline
          (readTrivia false s.cursor).comments (readToken s.situation.exprAllowed c) := by
  unfold next
  rw [hf, hstart]
  exact if_neg hs

theorem next_ordinary_ok {s : Scanner} {t : Token} (hf : s.failure = none)
    (hstart : s.atStart = false) (hs : s.situation.innermost ≠ .template)
    (h : s.next.outcome = .ok t) :
    ∃ c d, (readTrivia false s.cursor).outcome = .ok c
      ∧ readToken s.situation.exprAllowed c = .ok (t, d)
      ∧ s.next = ⟨(readTrivia false s.cursor).comments, .ok t,
          s.behind (readTrivia false s.cursor).newline t d⟩ := by
  rw [next_of_ordinary hf hstart hs] at h ⊢
  split at h
  · cases h
  · next c hc =>
    obtain ⟨d, hd⟩ := finish_outcome h
    exact ⟨c, d, hc, hd, by rw [hd, finish_ok]⟩

/-- A step in front of a template chunk reads it. -/
theorem next_chunk {s : Scanner} (hf : s.failure = none) (hs : s.situation.innermost = .template)
    (hprev : s.prev ≠ .template) (h : readChunk s.cursor.position s.cursor = .ok d) :
    s.next = ⟨[], .ok (rawToken .template s.cursor d),
      s.behind false (rawToken .template s.cursor d) d⟩ := by
  rw [next_of_template hf hs, readTemplateToken, if_neg fun hn => hprev hn.1, h]
  rfl

/-- Nothing but a chunk is read in front of it. -/
theorem next_template_ok {s : Scanner} {t : Token} (hf : s.failure = none)
    (hs : s.situation.innermost = .template) (hprev : opensChunk s.prev = true)
    (h : s.next.outcome = .ok t) :
    ∃ d, readChunk s.cursor.position s.cursor = .ok d ∧ t = rawToken .template s.cursor d
      ∧ s.next = ⟨[], .ok t, s.behind false t d⟩ := by
  have hne : ¬ (s.prev = .template ∧ chunkEnds s.cursor = true) := by
    rintro ⟨hp, _⟩
    rw [hp] at hprev
    exact absurd hprev (by decide)
  rw [next_of_template hf hs] at h ⊢
  obtain ⟨d, hd⟩ := finish_outcome h
  rw [hd, finish_ok]
  unfold readTemplateToken rawTokenTo at hd
  rw [if_neg hne] at hd
  split at hd
  · next e he =>
    cases hd
    exact ⟨d, he, rfl, rfl⟩
  · cases hd

theorem readChunkDelimiter_eq (h : chunkEnds c = true) :
    ∃ p, (p = .backQuote ∨ p = .dollarBraceL)
      ∧ c.rest.head?.map (·.char) = p.label.toList.head?
      ∧ readChunkDelimiter c =
        (bareToken (.punct p) c (c.advanceBy p.label.length), c.advanceBy p.label.length) := by
  unfold readChunkDelimiter
  by_cases hdollar : c.peek? = some '$'
  · refine ⟨.dollarBraceL, Or.inr rfl, hdollar, ?_⟩
    rw [if_pos hdollar]
    rfl
  · refine ⟨.backQuote, Or.inl rfl, ?_, ?_⟩
    · unfold chunkEnds at h
      simp only [Bool.or_eq_true, Bool.and_eq_true, beq_iff_eq] at h
      rcases h with h | h
      · exact h
      · exact absurd h.1 hdollar
    · rw [if_neg hdollar]
      rfl

/-- A step behind a template chunk reads what delimits it. -/
theorem next_delimiter {s : Scanner} {t : Token} (hf : s.failure = none)
    (hs : s.situation.innermost = .template) (hprev : s.prev = .template)
    (hends : chunkEnds s.cursor = true) (h : readChunkDelimiter s.cursor = (t, d)) :
    s.next = ⟨[], .ok t, s.behind false t d⟩ := by
  rw [next_of_template hf hs, readTemplateToken, if_pos ⟨hprev, hends⟩, h]
  rfl

/-! ## Runs -/

theorem rest_ne_nil_of_chunkEnds (h : chunkEnds c = true) : c.rest ≠ [] := by
  intro hnil
  simp [chunkEnds, peek?_eq_head?, hnil] at h

theorem Ready.between {s : Scanner} {last : Option Token} (hr : s.Ready last) :
    Between last false false s.cursor := by
  cases last with
  | none =>
    exact ⟨fun l hl => (by cases hl), fun l hl => (by cases hl), fun l hl => (by cases hl)⟩
  | some l =>
    obtain ⟨hstop, hline⟩ := hr.stop l rfl
    exact between_of_stop hstop false hline

/-- The scanner behind the delimiter of a template chunk. -/
theorem Ready.delimiter {s : Scanner} {last : Option Token} {p : Punctuator}
    (hr : s.Ready last) (hd : s.cursor.Reaches d) (hp : p = .backQuote ∨ p = .dollarBraceL) :
    ((s.behind false (rawToken .template s.cursor d) d).behind false
      (bareToken (.punct p) d (d.advanceBy p.label.length)) (d.advanceBy p.label.length)).Ready
        (some (bareToken (.punct p) d (d.advanceBy p.label.length))) := by
  refine ⟨hr.failure, rfl, (hd.trans (reaches_advanceBy _ d)).isDecoding hr.decoding, ?_, ?_⟩
  · intro k hk
    cases hk
    exact ⟨rfl, fun h => by cases h⟩
  · intro htemplate
    refine ⟨_, rfl, rfl, ?_⟩
    rcases hp with rfl | rfl
    · rfl
    · exact absurd htemplate (show Context.substitution ≠ .template by decide)

/-- The scanner behind a token of ordinary code. -/
theorem Ready.token {s : Scanner} {last : Option Token} {t : Token} (hr : s.Ready last)
    (hs : s.situation.innermost ≠ .template) (hd : s.cursor.Reaches d)
    (hstop : t.stop = d.position) (ht : t.isComment = false) (newline : Bool) :
    (s.behind newline t d).Ready (some t) := by
  refine ⟨hr.failure, rfl, hd.isDecoding hr.decoding, ?_, ?_⟩
  · intro l hl
    cases hl
    refine ⟨hstop, fun h => ?_⟩
    rw [Token.isComment, isComment_of_fillsLine h] at ht
    cases ht
  · intro htemplate
    have hopen : ({ s.situation with newlineBefore := newline }.after t.kind s.prev
        t.value).innermost = .template := htemplate
    exact ⟨t, rfl, rfl, opensChunk_of_after (by exact hs) hopen⟩

/-- Runs of so many steps give streams of the described form, if the steps are enough to reach the
end of the source. -/
def Lexes (fuel : Nat) : Prop :=
  ∀ {s : Scanner} {last : Option Token} {toks : List Token}, s.Ready last →
    2 * s.cursor.rest.length + 1 ≤ fuel → collect fuel s = .ok toks →
    Lexed s.situation s.prev last false toks

/-- A run that starts in the text of a template literal. The first two steps are the chunk, which
may be empty, and its delimiter, which is not. -/
theorem Ready.lexed_chunk {fuel : Nat} {s : Scanner} {last : Option Token} {toks : List Token}
    (hr : s.Ready last) (hs : s.situation.innermost = .template) (ih : ∀ m < fuel, Lexes m)
    (hfuel : 2 * s.cursor.rest.length + 1 ≤ fuel) (h : collect fuel s = .ok toks) :
    Lexed s.situation s.prev last false toks := by
  obtain ⟨n, rfl⟩ : ∃ n, fuel = n + 1 := ⟨fuel - 1, by omega⟩
  obtain ⟨t, ht, hcases⟩ := collect_succ_eq_ok.mp h
  obtain ⟨l, rfl, hl, hprev⟩ := hr.template hs
  obtain ⟨d, hchunk, rfl, hnext⟩ := next_template_ok hr.failure hs hprev ht
  have hends := readChunk_ends hchunk
  obtain ⟨gs, hgs⟩ := readChunk_reaches hchunk
  have hpos := List.length_pos_iff.mpr (rest_ne_nil_of_chunkEnds hends)
  have hle := (show s.cursor.Reaches d from ⟨gs, hgs⟩).suffix.length_le
  rcases hcases with ⟨hk, _⟩ | ⟨_, ts, hts, rfl⟩
  · cases hk
  -- the delimiter is the next step
  obtain ⟨m, rfl⟩ : ∃ m, n = m + 1 := ⟨n - 1, by omega⟩
  rw [hnext] at hts ⊢
  obtain ⟨u, hu, hcases⟩ := collect_succ_eq_ok.mp hts
  obtain ⟨p, hp, hhead, hdelim⟩ := readChunkDelimiter_eq hends
  rw [next_delimiter (s := s.behind false (rawToken .template s.cursor d) d)
    hr.failure hs rfl hends hdelim] at hu hcases
  cases hu
  rcases hcases with ⟨hk, _⟩ | ⟨_, us, hus, rfl⟩
  · cases hk
  have hlabel := p.label_length_pos
  refine Lexed.chunk hs hprev hl rfl (hr.stop l rfl).1.symm rfl rfl rfl
    ⟨⟨s.cursor, d, gs, hchunk, hgs, hgs.isDecoding_left hr.decoding,
      hgs.textTo_eq hr.decoding, hhead⟩, hp⟩
    (ih m (by omega) (hr.delimiter ⟨gs, hgs⟩ hp) ?_ hus)
  show 2 * (d.advanceBy p.label.length).rest.length + 1 ≤ m
  rw [advanceBy_rest, List.length_drop]
  omega

/-- A run that starts in ordinary code. The first step is a token behind its comments, which takes
a character unless it is the end of the source. -/
theorem Ready.lexed_token {fuel : Nat} {s : Scanner} {last : Option Token} {toks : List Token}
    (hr : s.Ready last) (hs : s.situation.innermost ≠ .template) (ih : ∀ m < fuel, Lexes m)
    (hfuel : 2 * s.cursor.rest.length + 1 ≤ fuel) (h : collect fuel s = .ok toks) :
    Lexed s.situation s.prev last false toks := by
  obtain ⟨n, rfl⟩ : ∃ n, fuel = n + 1 := ⟨fuel - 1, by omega⟩
  obtain ⟨t, ht, hcases⟩ := collect_succ_eq_ok.mp h
  obtain ⟨c, d, hc, hd, hnext⟩ := next_ordinary_ok hr.failure hr.atStart hs ht
  have hreach := (readTrivia_within false s.cursor).reaches c hc
  have hstops := readTrivia_stops hc
  have hread := readToken_sound (hreach.isDecoding hr.decoding) hstops.comment hd
  have hle := hreach.suffix.length_le
  -- in front of the end there may be a comment that fills its line
  have heof : c.rest = [] → t.kind = .eof := by
    intro hnil
    rcases hread.lexeme with hlex | hlex
    · exact hlex.1
    · have hlt := hlex.2.2
      rw [hnil] at hlt
      exact absurd hlt (Nat.not_lt_zero _)
  rw [hnext] at hcases
  rcases hcases with ⟨hk, rfl⟩ | ⟨hk, ts, hts, rfl⟩
  · refine readTrivia_lexed hs hr.decoding hr.between hc fun last' seen' hb => ?_
    rcases hread.lexeme with hlex | hlex
    · exact .eof hs hk hlex.2.1 (hb.follows hstops.lineEnd hread.start_eq heof)
    · exact absurd hk hlex.1
  · refine readTrivia_lexed hs hr.decoding hr.between hc fun last' seen' hb => ?_
    rcases hread.lexeme with hlex | hlex
    · exact absurd hlex.1 hk
    · obtain ⟨_, hlexeme, hlt⟩ := hlex
      refine .token hs hlexeme (hb.follows hstops.lineEnd hread.start_eq heof)
        (ih n (by omega) (hr.token hs (hreach.trans hread.reaches) hread.stop_eq
          hlexeme.ordinary.1 _) ?_ hts)
      show 2 * d.rest.length + 1 ≤ n
      omega

/-- **A scan that ends gives a stream of the described form.** Each step but the one for a
template chunk takes a character, and a chunk comes with its delimiter. -/
theorem collect_lexed {fuel : Nat} {s : Scanner} {last : Option Token} {toks : List Token}
    (hr : s.Ready last) (hfuel : 2 * s.cursor.rest.length + 1 ≤ fuel)
    (h : collect fuel s = .ok toks) : Lexed s.situation s.prev last false toks := by
  induction fuel using Nat.strong_induction_on generalizing s last toks with
  | h fuel ih =>
    have hlexes : ∀ m < fuel, Lexes m := fun m hm => @ih m hm
    by_cases hs : s.situation.innermost = .template
    · exact hr.lexed_chunk hs hlexes hfuel h
    · exact hr.lexed_token hs hlexes hfuel h

/-! ## Whole sources -/

theorem finish_atStart (s : Scanner) (newline : Bool) (comments : List Token)
    (read : Except LexError (Token × Cursor)) :
    ({ s with atStart := false } : Scanner).finish newline comments read =
      s.finish newline comments read := by
  cases read with
  | error e => rfl
  | ok r => rfl

theorem collect_of_not_hashbang {s : Scanner} (hf : s.failure = none)
    (hhash : ¬ (s.cursor.peek? = some '#' ∧ s.cursor.peekSecond? = some '!')) (fuel : Nat) :
    collect fuel s = collect fuel { s with atStart := false } := by
  cases fuel with
  | zero => rfl
  | succ fuel =>
    have hnext : s.next = { s with atStart := false }.next := by
      obtain ⟨c, prev, situation, atStart, failure⟩ := s
      cases hf
      unfold next readLeadingTrivia
      dsimp only at hhash ⊢
      rw [if_neg hhash, ite_self, ite_self]
      split
      · exact (finish_atStart _ _ _ _).symm
      · split
        · exact (finish_atStart _ _ _ _).symm
        · exact (finish_atStart _ _ _ _).symm
    rw [collect, collect, hnext]

/-- A first line that is a comment is put in front of what the rest of the source gives. -/
theorem collect_of_hashbang {s : Scanner} (hf : s.failure = none) (hstart : s.atStart = true)
    (hs : s.situation.innermost ≠ .template)
    (hhash : s.cursor.peek? = some '#' ∧ s.cursor.peekSecond? = some '!') (fuel : Nat) :
    collect (fuel + 1) s =
      (collect (fuel + 1) { s with
        atStart := false, cursor := (readLineComment .hashbang s.cursor).2 }).map
        ((readLineComment .hashbang s.cursor).1 :: ·) := by
  obtain ⟨start, prev, situation, atStart, failure⟩ := s
  cases hf
  cases hstart
  have hlead : readLeadingTrivia start =
      (readTrivia false (readLineComment .hashbang start).2).withComment
        (readLineComment .hashbang start).1 := if_pos hhash
  rw [collect, collect, next_of_ordinary (s := ⟨(readLineComment .hashbang start).2, prev,
    situation, false, none⟩) rfl rfl hs]
  unfold next
  dsimp only at hs ⊢
  rw [if_neg hs, if_pos rfl, hlead]
  dsimp only [Trivia.withComment]
  cases (readTrivia false (readLineComment .hashbang start).2).outcome with
  | error e => rfl
  | ok c =>
    dsimp only
    cases readToken situation.exprAllowed c with
    | error e => rfl
    | ok r =>
      obtain ⟨t, d⟩ := r
      -- both scanners are at the same place behind the token
      rw [finish_ok, finish_ok]
      dsimp only [behind]
      split
      · rfl
      · split
        · rfl
        · rfl

/-- A stream of tokens and comments of a whole source, which may start with a comment line of
its own kind. -/
inductive LexedSource : List Token → Prop
  | plain {toks} (h : Lexed {} .eof none false toks) : LexedSource toks
  | hashbang {t rest} (ht : t.kind = .hashbang) (hvalue : holdsLineEnd t.value = false)
    (h : Lexed {} .eof (some t) false rest) : LexedSource (t :: rest)

theorem LexedSource.getLast? {toks : List Token} (h : LexedSource toks) :
    toks.getLast?.any (·.kind == .eof) = true := by
  cases h with
  | plain hlexed => exact hlexed.getLast?
  | @hashbang t rest ht hvalue hlexed =>
    have hend := hlexed.getLast?
    cases rest with
    | nil => cases hend
    | cons u rest => rwa [List.getLast?_cons_cons]

theorem length_glyphs_le (text : Bytes) : (Utf8.glyphs text).length ≤ text.length := by
  have hne := (Utf8.isDecoding_glyphs text).bytes_ne_nil
  have hbytes := congrArg List.length (Utf8.bytes_glyphs text)
  generalize Utf8.glyphs text = gs at hne hbytes
  rw [← hbytes]
  clear hbytes
  induction gs with
  | nil => exact Nat.le_refl _
  | cons g gs ih =>
    have hg := List.length_pos_iff.mpr (hne g List.mem_cons_self)
    have := ih fun k hk => hne k (List.mem_cons_of_mem _ hk)
    rw [List.length_cons, List.flatMap_cons, List.length_append]
    omega

theorem collect_covers {fuel : Nat} {s : Scanner} {c : Cursor} {toks : List Token}
    (hs : s.Within c) (h : collect fuel s = .ok toks) : ∀ t ∈ toks, Covers c t := by
  induction fuel generalizing s toks with
  | zero =>
    cases h
    intro t ht
    cases ht
  | succ fuel ih =>
    obtain ⟨hstep, hnext⟩ := next_within hs
    obtain ⟨t, ht, hcases⟩ := collect_succ_eq_ok.mp h
    intro u hu
    rcases hcases with ⟨_, rfl⟩ | ⟨_, ts, hts, rfl⟩
    · rcases List.mem_append.mp hu with hu | hu
      · exact hstep.comments u hu
      · rw [List.mem_singleton.mp hu]
        exact hstep.token t ht
    · rcases List.mem_append.mp hu with hu | hu
      · exact hstep.comments u hu
      · rcases List.mem_cons.mp hu with rfl | hu
        · exact hstep.token u ht
        · exact ih hnext hts u hu

/-- **All tokens of a source lie in it.** -/
theorem tokenize_covers {source : Bytes} {toks : List Token} (h : tokenize source = .ok toks) :
    ∀ t ∈ toks, Covers (Cursor.ofSource source) t :=
  collect_covers (ofSource_within source) h

/-- **Every source that is accepted gives a stream of the described form.** -/
theorem tokenize_lexed {source : Bytes} {toks : List Token} (h : tokenize source = .ok toks) :
    LexedSource toks := by
  unfold tokenize at h
  have hwithin := (ofSource_within source).reaches
  have hdec := hwithin.isDecoding (Utf8.isDecoding_glyphs source)
  have hlen := Nat.le_trans hwithin.suffix.length_le (length_glyphs_le source)
  -- only at the very start is a hash with an exclamation mark a comment
  by_cases hhash : (Scanner.ofSource source).cursor.peek? = some '#'
      ∧ (Scanner.ofSource source).cursor.peekSecond? = some '!'
  · have hblock : (Scanner.ofSource source).situation.innermost ≠ .template :=
      show Context.block ≠ .template by decide
    rw [collect_of_hashbang rfl rfl hblock hhash] at h
    have hreach := readLineComment_reaches .hashbang (Scanner.ofSource source).cursor
    generalize hrun : collect _ _ = r at h
    cases r with
    | error e => cases h
    | ok ts =>
      cases h
      refine .hashbang rfl
        (readLineComment_value hdec hhash.1 hhash.2 (by decide) (by decide)) ?_
      refine collect_lexed (s := { Scanner.ofSource source with
        atStart := false
        cursor := (readLineComment .hashbang (Scanner.ofSource source).cursor).2 })
        ⟨rfl, rfl, hreach.isDecoding hdec, ?_, fun hs => ?_⟩ ?_ hrun
      · intro l hl
        cases hl
        refine ⟨rfl, fun _ ch hch => ?_⟩
        simpa using peek?_skipWhile (fun ch => !isLineTerminator ch) _ ch hch
      · exact absurd hs (show Context.block ≠ .template by decide)
      · have := hreach.suffix.length_le
        dsimp only
        omega
  · rw [collect_of_not_hashbang rfl hhash] at h
    refine .plain (collect_lexed (s := { Scanner.ofSource source with atStart := false })
      ⟨rfl, rfl, hdec, fun l hl => (by cases hl), fun hs => ?_⟩ ?_ h)
    · exact absurd hs (show Context.block ≠ .template by decide)
    · dsimp only
      omega

end ScriptTidy.Scanner
