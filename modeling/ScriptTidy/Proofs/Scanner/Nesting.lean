import ScriptTidy.Scanner.Context

/-!
# Well-nested code leaves no trace

The scanner keeps a stack of what is open, and reads it to tell a regular expression from a
division. Here the stack is run over well-nested pieces of code. A brace is taken for a block or
for an object by what stands before it, a function is opened long before its body and closed with
it, and a template literal has code inside of its text; still each piece closes what it opens.

* `Nested` : the grammar of well-nested pieces.
* `afterAll_enclosed` : a bracketed group acts like its two brackets alone.
* `Nested.restores` : a piece of code restores the stack, the head of a function does so inside of
  the function, and the text of a template literal closes the literal.
* `afterAll_segment` : what is open behind a piece of code, and whether a slash behind a bracketed
  group starts a regular expression, does not depend on the piece and on what the group holds.
-/

namespace ScriptTidy

/-- A token as it reaches the stack of contexts: what it is, the kind of the token before it, and
whether a line ended between the two. -/
structure Arrival where
  kind : Kind
  value : Bytes
  prev : Kind
  newline : Bool
deriving DecidableEq, Repr

namespace Arrival

/-- A function or class that opens a context; behind a dot it is a property name. -/
def OpensFunction (a : Arrival) : Prop :=
  (a.kind = .keyword .functionKw ∨ a.kind = .keyword .classKw) ∧ a.prev ≠ .punct .dot

/-- The kinds that delimit something. -/
def delimits : Kind → Bool
  | .punct .parenL | .punct .parenR | .punct .braceL | .punct .braceR | .punct .dollarBraceL
  | .punct .backQuote | .template | .eof => true
  | _ => false

/-- A token that opens and closes nothing. -/
def Plain (a : Arrival) : Prop := delimits a.kind = false ∧ ¬ a.OpensFunction

end Arrival

namespace Situation

/-- The situation behind a token. -/
def afterArrival (s : Situation) (a : Arrival) : Situation :=
  { s with newlineBefore := a.newline }.after a.kind a.prev a.value

/-- The situation behind several tokens. -/
def afterAll (s : Situation) (as : List Arrival) : Situation := as.foldl afterArrival s

theorem afterAll_cons (s : Situation) (a : Arrival) (as : List Arrival) :
    s.afterAll (a :: as) = (s.afterArrival a).afterAll as := rfl

theorem afterAll_append (s : Situation) (as bs : List Arrival) :
    s.afterAll (as ++ bs) = (s.afterAll as).afterAll bs := List.foldl_append

/-- Code can stand here: neither the text of a template literal nor the head of a function is
innermost. -/
def HoldsCode (s : Situation) : Prop :=
  s.innermost ≠ .template ∧ s.innermost.isFunction = false

end Situation

/-! ## The grammar -/

/-- The pieces of the grammar. -/
inductive Piece
  /-- Code between brackets, or of a whole program. -/
  | segment
  /-- What stands between a function or class and the brace of its body. -/
  | head
  /-- The rest of a template literal, behind its first quote. -/
  | literal
deriving DecidableEq

/-- Well-nested pieces of code. -/
inductive Nested : Piece → List Arrival → Prop
  | nil {p} (hp : p ≠ .literal) : Nested p []
  | plain {p a rest} (hp : p ≠ .literal) (ha : a.Plain) (hrest : Nested p rest) :
    Nested p (a :: rest)
  | parens {p o c inner rest} (hp : p ≠ .literal) (ho : o.kind = .punct .parenL)
    (hinner : Nested .segment inner) (hc : c.kind = .punct .parenR) (hrest : Nested p rest) :
    Nested p (o :: inner ++ c :: rest)
  | braces {o c inner rest} (ho : o.kind = .punct .braceL) (hinner : Nested .segment inner)
    (hc : c.kind = .punct .braceR) (hrest : Nested .segment rest) :
    Nested .segment (o :: inner ++ c :: rest)
  | function {f o c head inner rest} (hf : f.OpensFunction) (hhead : Nested .head head)
    (ho : o.kind = .punct .braceL) (hinner : Nested .segment inner)
    (hc : c.kind = .punct .braceR) (hrest : Nested .segment rest) :
    Nested .segment (f :: head ++ (o :: inner ++ c :: rest))
  | template {p q text rest} (hp : p ≠ .literal) (hq : q.kind = .punct .backQuote)
    (htext : Nested .literal text) (hrest : Nested p rest) : Nested p (q :: text ++ rest)
  | quote {t q} (ht : t.kind = .template) (hq : q.kind = .punct .backQuote) :
    Nested .literal [t, q]
  | substitution {t o c inner rest} (ht : t.kind = .template)
    (ho : o.kind = .punct .dollarBraceL) (hinner : Nested .segment inner)
    (hc : c.kind = .punct .braceR) (hrest : Nested .literal rest) :
    Nested .literal (t :: (o :: inner ++ c :: rest))

namespace Situation

variable {s : Situation} {a o c f : Arrival}

/-! ## One token -/

theorem opened_plain (h : a.Plain) : (s.afterArrival a).opened = s.opened := by
  obtain ⟨kind, value, prev, newline⟩ := a
  obtain ⟨hdelimits, hfunction⟩ := h
  unfold afterArrival after
  dsimp only at hdelimits hfunction ⊢
  split
  next => rfl
  next hproperty =>
    -- a function or class that is no property name would open a context
    have hword : ∀ k, kind = .keyword k → prev ≠ .punct .dot := by
      rintro k rfl rfl
      exact hproperty rfl
    split
    case h_8 => exact absurd ⟨Or.inl rfl, hword _ rfl⟩ hfunction
    case h_9 => exact absurd ⟨Or.inr rfl, hword _ rfl⟩ hfunction
    all_goals first | rfl | cases hdelimits

theorem opened_template (h : a.kind = .template) : (s.afterArrival a).opened = s.opened := by
  rw [afterArrival, h]
  rfl

/-- The words whose parentheses belong to a statement. -/
def headWords : List Kind :=
  [.keyword .ifKw, .keyword .forKw, .keyword .withKw, .keyword .whileKw]

theorem opened_parenL (h : a.kind = .punct .parenL) : (s.afterArrival a).opened =
    (if a.prev ∈ headWords then .head else .group) :: s.opened := by
  rw [afterArrival, h]
  show (if _ then _ else _) :: s.opened = _
  by_cases hprev : a.prev ∈ headWords
  · rw [if_pos hprev]
    simp only [headWords, List.mem_cons, List.not_mem_nil, or_false] at hprev
    rcases hprev with hp | hp | hp | hp <;> rw [hp] <;> rfl
  · rw [if_neg hprev]
    simp only [headWords, List.mem_cons, List.not_mem_nil, or_false, not_or] at hprev
    obtain ⟨hif, hfor, hwith, hwhile⟩ := hprev
    split
    next hp => exact absurd hp hif
    next hp => exact absurd hp hfor
    next hp => exact absurd hp hwith
    next hp => exact absurd hp hwhile
    next => rfl

theorem opened_braceL (h : a.kind = .punct .braceL) :
    ((s.afterArrival a).opened = .block :: s.opened
      ∨ (s.afterArrival a).opened = .object :: s.opened)
      ∧ (s.innermost.isFunction = true → (s.afterArrival a).opened = .block :: s.opened) := by
  rw [afterArrival, h]
  show ((if _ then _ else _) :: s.opened = _ ∨ (if _ then _ else _) :: s.opened = _)
    ∧ (_ → (if _ then _ else _) :: s.opened = _)
  refine ⟨?_, fun hfunction => ?_⟩
  · split
    · exact Or.inl rfl
    · exact Or.inr rfl
  · have hblock : ({ s with newlineBefore := a.newline } : Situation).braceIsBlock a.prev = true :=
      if_pos hfunction
    rw [if_pos hblock]

theorem opened_dollarBraceL (h : a.kind = .punct .dollarBraceL) :
    (s.afterArrival a).opened = .substitution :: s.opened := by
  rw [afterArrival, h]
  rfl

theorem opened_backQuote (h : a.kind = .punct .backQuote) : (s.afterArrival a).opened =
    if s.innermost = .template then s.opened.tail else .template :: s.opened := by
  rw [afterArrival, h]
  show Situation.opened (if s.innermost = .template then _ else _) = _
  split
  · rfl
  · rfl

theorem opened_function (h : a.OpensFunction) :
    (s.afterArrival a).opened = .declaration :: s.opened
      ∨ (s.afterArrival a).opened = .functionExpr :: s.opened := by
  obtain ⟨hkind, hprev⟩ := h
  have hproperty : (a.kind.isKeyword && a.prev = .punct .dot) = false := by
    rw [decide_eq_false hprev, Bool.and_false]
  unfold afterArrival after
  rw [if_neg (by rw [hproperty]; exact Bool.false_ne_true)]
  rcases hkind with hk | hk
  all_goals
    rw [hk]
    dsimp only [opening]
    split
    · exact Or.inr rfl
    · exact Or.inl rfl

/-- What a closing bracket does depends on the stack alone. -/
theorem afterArrival_closing (hc : c.kind = .punct .parenR ∨ c.kind = .punct .braceR) :
    s.afterArrival c = ({ s with newlineBefore := c.newline } : Situation).closing := by
  unfold afterArrival
  rcases hc with hk | hk
  · rw [hk]
    rfl
  · rw [hk]
    rfl

theorem closing_congr {s s' : Situation} (h : s'.opened = s.opened) :
    s'.closing = { s.closing with newlineBefore := s'.newlineBefore } := by
  obtain ⟨opened, exprAllowed, newline⟩ := s
  obtain ⟨opened', exprAllowed', newline'⟩ := s'
  dsimp only at h
  subst h
  cases opened' with
  | nil => rfl
  | cons closed rest =>
    cases rest with
    | nil => cases closed <;> rfl
    | cons outer rest => cases closed <;> cases outer <;> rfl

/-- A closing bracket closes what is innermost, and a block that is the body of a function closes
the function with it. -/
theorem closing_of_cons {context : Context} {rest : List Context}
    (h : s.opened = context :: rest)
    (hbody : context = .block → rest.head?.any Context.isFunction = false) :
    s.closing = { s with opened := rest, exprAllowed := !context.isExpr } := by
  unfold closing
  rw [h]
  split
  next hnil => cases hnil
  next outer more hcons =>
    cases hcons
    have houter : outer.isFunction = false := hbody rfl
    rw [houter, if_neg Bool.false_ne_true]
    rfl
  next hcons =>
    cases hcons
    rfl

theorem closing_of_body {outer : Context} {rest : List Context}
    (h : s.opened = .block :: outer :: rest) (houter : outer.isFunction = true) :
    s.closing = { s with opened := rest, exprAllowed := !outer.isExpr } := by
  unfold closing
  rw [h]
  exact if_pos houter

/-! ## Groups -/

theorem innermost_of_cons {context : Context} {rest : List Context}
    (h : s.opened = context :: rest) : s.innermost = context := by
  rw [innermost, h]
  rfl

theorem isFunction_head? (h : s.innermost.isFunction = false) :
    s.opened.head?.any Context.isFunction = false := by
  unfold innermost at h
  cases hs : s.opened with
  | nil => rfl
  | cons context rest =>
    rw [hs] at h
    exact h

/-- Brackets and substitutions hold code. -/
theorem holdsCode_of_cons {context : Context} {rest : List Context}
    (h : s.opened = context :: rest)
    (hcontext : context ≠ .template ∧ context.isFunction = false) : s.HoldsCode := by
  unfold HoldsCode
  rw [innermost_of_cons h]
  exact hcontext

/-- The tokens leave the stack as it was wherever code can stand. -/
def Restoring (as : List Arrival) : Prop :=
  ∀ s : Situation, s.HoldsCode → (s.afterAll as).opened = s.opened

/-- **A bracketed group acts like its two brackets alone.** -/
theorem afterAll_enclosed {inner : List Arrival} (hinner : Restoring inner)
    (ho : (s.afterArrival o).HoldsCode)
    (hc : c.kind = .punct .parenR ∨ c.kind = .punct .braceR) :
    s.afterAll (o :: inner ++ [c]) =
      { (s.afterArrival o).closing with newlineBefore := c.newline } := by
  rw [List.cons_append, afterAll_cons, afterAll_append]
  show ((s.afterArrival o).afterAll inner).afterArrival c = _
  rw [afterArrival_closing hc]
  exact closing_congr (s := s.afterArrival o) (hinner _ ho)

theorem afterAll_parens {inner : List Arrival} (hinner : Restoring inner)
    (ho : o.kind = .punct .parenL) (hc : c.kind = .punct .parenR) :
    s.afterAll (o :: inner ++ [c]) = ⟨s.opened, decide (o.prev ∈ headWords), c.newline⟩ := by
  have hopened := opened_parenL (s := s) ho
  by_cases hprev : o.prev ∈ headWords
  · rw [if_pos hprev] at hopened
    rw [afterAll_enclosed hinner (holdsCode_of_cons hopened (by decide)) (Or.inl hc),
      closing_of_cons hopened (fun h => by cases h), decide_eq_true hprev]
    rfl
  · rw [if_neg hprev] at hopened
    rw [afterAll_enclosed hinner (holdsCode_of_cons hopened (by decide)) (Or.inl hc),
      closing_of_cons hopened (fun h => by cases h), decide_eq_false hprev]
    rfl

/-- Braces that are no body of a function: what they were taken for decides what follows them. -/
theorem afterAll_braces {inner : List Arrival} (hinner : Restoring inner)
    (ho : o.kind = .punct .braceL) (hc : c.kind = .punct .braceR)
    (hs : s.innermost.isFunction = false) :
    s.afterAll (o :: inner ++ [c]) =
      ⟨s.opened, decide ((s.afterArrival o).innermost = .block), c.newline⟩ := by
  rcases (opened_braceL (s := s) ho).1 with hopened | hopened
  · rw [afterAll_enclosed hinner (holdsCode_of_cons hopened (by decide)) (Or.inr hc),
      closing_of_cons hopened (fun _ => isFunction_head? hs), innermost_of_cons hopened]
    rfl
  · rw [afterAll_enclosed hinner (holdsCode_of_cons hopened (by decide)) (Or.inr hc),
      closing_of_cons hopened (fun h => by cases h), innermost_of_cons hopened]
    rfl

theorem afterAll_substitution {inner : List Arrival} (hinner : Restoring inner)
    (ho : o.kind = .punct .dollarBraceL) (hc : c.kind = .punct .braceR) :
    (s.afterAll (o :: inner ++ [c])).opened = s.opened := by
  have hopened := opened_dollarBraceL (s := s) ho
  rw [afterAll_enclosed hinner (holdsCode_of_cons hopened (by decide)) (Or.inr hc),
    closing_of_cons hopened (fun h => by cases h)]

/-- A function with its head and its body: whether it was taken for a declaration decides what
follows it. -/
theorem afterAll_function {head inner : List Arrival} (hf : f.OpensFunction)
    (hhead : ((s.afterArrival f).afterAll head).opened = (s.afterArrival f).opened)
    (hinner : Restoring inner) (ho : o.kind = .punct .braceL) (hc : c.kind = .punct .braceR) :
    s.afterAll (f :: head ++ (o :: inner ++ [c])) =
      ⟨s.opened, decide ((s.afterArrival f).innermost = .declaration), c.newline⟩ := by
  obtain ⟨context, hcontext, hopened⟩ : ∃ context : Context,
      (context = .declaration ∨ context = .functionExpr)
        ∧ (s.afterArrival f).opened = context :: s.opened := by
    rcases opened_function (s := s) hf with h | h
    · exact ⟨_, Or.inl rfl, h⟩
    · exact ⟨_, Or.inr rfl, h⟩
  have hfunction : context.isFunction = true := by
    rcases hcontext with rfl | rfl <;> rfl
  rw [List.cons_append, afterAll_cons, afterAll_append, innermost_of_cons hopened]
  generalize hbefore : (s.afterArrival f).afterAll head = before at hhead ⊢
  rw [hopened] at hhead
  have hblock : (before.afterArrival o).opened = .block :: context :: s.opened := by
    rw [← hhead]
    apply (opened_braceL (s := before) ho).2
    rw [innermost_of_cons hhead]
    exact hfunction
  rw [afterAll_enclosed hinner (holdsCode_of_cons hblock (by decide)) (Or.inr hc),
    closing_of_body hblock hfunction]
  rcases hcontext with rfl | rfl
  · rfl
  · rfl

end Situation

/-! ## Whole pieces -/

open Situation

/-- What a piece does to the stack. -/
def Piece.Restores : Piece → List Arrival → Prop
  | .segment, as => Restoring as
  | .head, as => ∀ s : Situation, s.innermost ≠ .template → (s.afterAll as).opened = s.opened
  | .literal, as => ∀ (s : Situation) (rest : List Context),
      s.opened = .template :: rest → (s.afterAll as).opened = rest

/-- Where a piece that is no literal can stand. Heads hold no braces, so that an open function does
them no harm. -/
def Piece.FitsIn (p : Piece) (s : Situation) : Prop :=
  s.innermost ≠ .template ∧ (p = .segment → s.innermost.isFunction = false)

theorem Piece.restores_iff {p : Piece} {as : List Arrival} (hp : p ≠ .literal) :
    p.Restores as ↔ ∀ s : Situation, p.FitsIn s → (s.afterAll as).opened = s.opened := by
  cases p with
  | segment =>
    constructor
    · intro h s hs
      exact h s ⟨hs.1, hs.2 rfl⟩
    · intro h s hs
      exact h s ⟨hs.1, fun _ => hs.2⟩
  | head =>
    constructor
    · intro h s hs
      exact h s hs.1
    · intro h s hs
      exact h s ⟨hs, fun hsegment => by cases hsegment⟩
  | literal => exact absurd rfl hp

/-- A piece restores the stack also behind something that has restored it. -/
theorem Piece.Restores.behind {p : Piece} {as : List Arrival} (h : p.Restores as)
    (hp : p ≠ .literal) {s s' : Situation} (hopened : s'.opened = s.opened) (hs : p.FitsIn s) :
    (s'.afterAll as).opened = s.opened := by
  have hinnermost : s'.innermost = s.innermost := by rw [innermost, innermost, hopened]
  rw [← hopened]
  apply (Piece.restores_iff hp).mp h
  unfold Piece.FitsIn
  rw [hinnermost]
  exact hs

/-- **What a piece does to the stack**, by induction on the piece. -/
theorem Nested.restores {p : Piece} {as : List Arrival} (h : Nested p as) : p.Restores as := by
  induction h with
  | nil hp => exact (Piece.restores_iff hp).mpr fun s _ => rfl
  | @plain p a rest hp ha _ ih =>
    refine (Piece.restores_iff hp).mpr fun s hs => ?_
    rw [afterAll_cons]
    exact ih.behind hp (opened_plain ha) hs
  | @parens p o c inner rest hp ho _ hc _ ihinner ihrest =>
    refine (Piece.restores_iff hp).mpr fun s hs => ?_
    have hgroup := afterAll_parens (s := s) ihinner ho hc
    rw [List.append_cons, afterAll_append]
    exact ihrest.behind hp (by rw [hgroup]) hs
  | @braces o c inner rest ho _ hc _ ihinner ihrest =>
    intro s hs
    have hgroup := afterAll_braces (s := s) ihinner ho hc hs.2
    rw [List.append_cons, afterAll_append]
    exact ihrest.behind Piece.noConfusion (by rw [hgroup]) ⟨hs.1, fun _ => hs.2⟩
  -- the head stands between the keyword and the brace, where the kind of function is on top
  | @function f o c head inner rest hf _ ho _ hc _ ihhead ihinner ihrest =>
    intro s hs
    have hhead : ((s.afterArrival f).afterAll head).opened = (s.afterArrival f).opened := by
      apply ihhead
      rcases opened_function (s := s) hf with h | h
      · rw [innermost_of_cons h]
        decide
      · rw [innermost_of_cons h]
        decide
    have hgroup := afterAll_function hf hhead ihinner ho hc
    rw [List.append_cons (o :: inner), ← List.append_assoc (f :: head), afterAll_append]
    exact ihrest.behind Piece.noConfusion (by rw [hgroup]) ⟨hs.1, fun _ => hs.2⟩
  | @template p q text rest hp hq _ _ ihtext ihrest =>
    refine (Piece.restores_iff hp).mpr fun s hs => ?_
    have hopened := opened_backQuote (s := s) hq
    rw [if_neg hs.1] at hopened
    rw [afterAll_append]
    exact ihrest.behind hp (ihtext _ _ hopened) hs
  -- in the text of a template the stack is one higher, until its quote
  | @quote t q ht hq =>
    intro s rest hs
    have htext : (s.afterArrival t).opened = .template :: rest := (opened_template ht).trans hs
    show ((s.afterArrival t).afterArrival q).opened = rest
    rw [opened_backQuote hq, if_pos (innermost_of_cons htext), htext]
    rfl
  | @substitution t o c inner rest ht ho _ hc _ ihinner ihrest =>
    intro s outer hs
    have htext : (s.afterArrival t).opened = .template :: outer := (opened_template ht).trans hs
    have hgroup := afterAll_substitution (s := s.afterArrival t) ihinner ho hc
    rw [afterAll_cons, List.append_cons, afterAll_append]
    exact ihrest _ _ (hgroup.trans htext)

/-- The pairs of brackets that hold code. -/
def bracketPairs : List (Punctuator × Punctuator) :=
  [(.parenL, .parenR), (.braceL, .braceR), (.dollarBraceL, .braceR)]

/-- Behind an opening bracket code can stand. -/
theorem holdsCode_of_bracket {s : Situation} {o c : Arrival} {p q : Punctuator}
    (hpair : (p, q) ∈ bracketPairs) (ho : o.kind = .punct p) (hc : c.kind = .punct q) :
    (s.afterArrival o).HoldsCode ∧ (c.kind = .punct .parenR ∨ c.kind = .punct .braceR) := by
  simp only [bracketPairs, List.mem_cons, List.not_mem_nil, or_false, Prod.mk.injEq] at hpair
  rcases hpair with ⟨rfl, rfl⟩ | ⟨rfl, rfl⟩ | ⟨rfl, rfl⟩
  · refine ⟨holdsCode_of_cons (opened_parenL ho) ?_, Or.inl hc⟩
    split
    · decide
    · decide
  · refine ⟨?_, Or.inr hc⟩
    rcases (opened_braceL (s := s) ho).1 with h | h
    · exact holdsCode_of_cons h (by decide)
    · exact holdsCode_of_cons h (by decide)
  · exact ⟨holdsCode_of_cons (opened_dollarBraceL ho) (by decide), Or.inr hc⟩

/-- **Well-nested code leaves no trace.** Where code can stand, a segment restores the stack. In
parentheses or as the body of a function it restores the stack anywhere, and an expression may
follow exactly if the parentheses are the head of a statement or the function is a declaration.
And whatever stands in a pair of brackets, the stack behind them is the same, and so is whether an
expression may follow. -/
theorem afterAll_segment {inner : List Arrival} (h : Nested .segment inner) (s : Situation) :
    (s.innermost ≠ .template → s.innermost.isFunction = false →
      (s.afterAll inner).opened = s.opened)
    ∧ (∀ o c : Arrival, o.kind = .punct .parenL → c.kind = .punct .parenR →
      (s.afterAll (o :: inner ++ [c])).opened = s.opened
        ∧ ((s.afterAll (o :: inner ++ [c])).exprAllowed = true ↔ o.prev ∈ headWords))
    ∧ (∀ (f o c : Arrival) (head : List Arrival), f.OpensFunction → Nested .head head →
      o.kind = .punct .braceL → c.kind = .punct .braceR →
      (s.afterAll (f :: head ++ (o :: inner ++ [c]))).opened = s.opened
        ∧ ((s.afterAll (f :: head ++ (o :: inner ++ [c]))).exprAllowed = true ↔
          (s.afterArrival f).opened = .declaration :: s.opened))
    ∧ ∀ (o c c' : Arrival) (p q : Punctuator) (inner' : List Arrival), (p, q) ∈ bracketPairs →
      o.kind = .punct p → c.kind = .punct q → c'.kind = .punct q → Nested .segment inner' →
      (s.afterAll (o :: inner ++ [c])).opened = (s.afterAll (o :: inner' ++ [c'])).opened
        ∧ (s.afterAll (o :: inner ++ [c])).exprAllowed =
          (s.afterAll (o :: inner' ++ [c'])).exprAllowed := by
  have hinner : Restoring inner := h.restores
  refine ⟨fun ht hf => hinner s ⟨ht, hf⟩, fun o c ho hc => ?_,
    fun f o c head hf hhead ho hc => ?_, fun o c c' p q inner' hpair ho hc hc' h' => ?_⟩
  · rw [afterAll_parens hinner ho hc]
    exact ⟨rfl, decide_eq_true_iff⟩
  · obtain hopened | hopened := opened_function (s := s) hf
    all_goals
      have hrestored : ((s.afterArrival f).afterAll head).opened = (s.afterArrival f).opened := by
        apply hhead.restores
        rw [innermost_of_cons hopened]
        decide
      rw [afterAll_function hf hrestored hinner ho hc, innermost_of_cons hopened, hopened]
      refine ⟨rfl, ?_⟩
      simp
  · -- what the closing bracket follows is inside, so the two need not be the same
    have hinner' : Restoring inner' := h'.restores
    obtain ⟨hcode, hclose⟩ := holdsCode_of_bracket (s := s) hpair ho hc
    obtain ⟨_, hclose'⟩ := holdsCode_of_bracket (s := s) hpair ho hc'
    rw [afterAll_enclosed hinner hcode hclose, afterAll_enclosed hinner' hcode hclose']
    exact ⟨rfl, rfl⟩

/-- In the head of an `if` inside of an object stands a function with an empty body. -/
theorem afterAll_segment_if :
    Nested .segment [⟨.keyword .functionKw, utf8 "function", .punct .parenL, false⟩,
      ⟨.punct .parenL, [], .keyword .functionKw, false⟩,
      ⟨.punct .parenR, [], .punct .parenL, false⟩,
      ⟨.punct .braceL, [], .punct .parenR, true⟩, ⟨.punct .braceR, [], .punct .braceL, false⟩]
    ∧ ((⟨[.object], false, false⟩ : Situation).afterAll
        (⟨.punct .parenL, [], .keyword .ifKw, false⟩ ::
          [⟨.keyword .functionKw, utf8 "function", .punct .parenL, false⟩,
            ⟨.punct .parenL, [], .keyword .functionKw, false⟩,
            ⟨.punct .parenR, [], .punct .parenL, false⟩,
            ⟨.punct .braceL, [], .punct .parenR, true⟩,
            ⟨.punct .braceR, [], .punct .braceL, false⟩]
          ++ [⟨.punct .parenR, [], .punct .braceR, false⟩])).exprAllowed = true := by
  have hnested : Nested .segment [⟨.keyword .functionKw, utf8 "function", .punct .parenL, false⟩,
      ⟨.punct .parenL, [], .keyword .functionKw, false⟩,
      ⟨.punct .parenR, [], .punct .parenL, false⟩,
      ⟨.punct .braceL, [], .punct .parenR, true⟩, ⟨.punct .braceR, [], .punct .braceL, false⟩] :=
    @Nested.function _ _ _ [_, _] [] [] ⟨Or.inl rfl, by decide⟩
      (@Nested.parens _ _ _ [] [] (by decide) rfl (.nil (by decide)) rfl (.nil (by decide)))
      rfl (.nil (by decide)) rfl (.nil (by decide))
  exact ⟨hnested, ((afterAll_segment hnested _).2.1 _ _ rfl rfl).2.mpr (by decide)⟩

end ScriptTidy
