import ScriptTidy.Proofs.Layout.Steps

/-!
# Indentation follows what is open

The layout keeps a stack of frames and, apart from it, a level of indentation. What a token opens
and closes, and where the level goes up and down, is decided by separate rules at different moments
of one step. Here the two are run over well-nested code and shown to go together.

* `Standing` : the part of the state that decides about frames and level. A step changes it by the
  kind that the token is taken for, and by nothing else.
* `Segment` : the grammar of well-nested code, over the kinds that tokens are taken for.
* `after_opening`, `after_closing`, `after_plain` : one token.
* `restores_group`, `restores_switch` : something that is opened and closed.
* `Segment.restores` : the induction on the grammar.
* `statesFrom_segment` : in every run, wherever a segment stands between brackets or at the top.
-/

namespace ScriptTidy

/-- Whether what is in the frame is indented. -/
def Frame.isIndenting : Frame → Bool
  | brace | arrayLiteral | switchBody => true
  | _ => false

/-- By how much a frame raises the level. -/
def Frame.indent (f : Frame) : Int := if f.isIndenting then 1 else 0

namespace Layout

/-! ## The part of the state that decides -/

/-- The kind of the last token, what is open, and the level. -/
structure Standing where
  last : Option Kind
  frames : List Frame
  level : Int

namespace Standing

/-- Whether a token of this kind opens an array literal. -/
def opensArray (p : Standing) (kind : Kind) : Bool :=
  kind = .punct .bracketL && p.last.all Rules.precedesArrayLiteral

/-- What stands behind a token that is taken for one of kind `kind`. -/
def after (p : Standing) (kind : Kind) : Standing :=
  let array := p.opensArray kind
  let frames := (Frame.opened? kind array).toList ++ p.frames
  { last := some kind
    frames := Frame.afterToken kind frames
    level := levelBefore kind frames p.level + if Frame.indents kind array then 1 else 0 }

/-- What stands behind each of several tokens. -/
def trail (p : Standing) : List Kind → List Standing
  | [] => []
  | k :: ks => p.after k :: (p.after k).trail ks

/-- What stands behind all of them. -/
def afterAll (p : Standing) (ks : List Kind) : Standing := ks.foldl after p

theorem afterAll_append (p : Standing) (as bs : List Kind) :
    p.afterAll (as ++ bs) = (p.afterAll as).afterAll bs := List.foldl_append

theorem length_trail (p : Standing) (ks : List Kind) : (p.trail ks).length = ks.length := by
  induction ks generalizing p with
  | nil => rfl
  | cons k ks ih => exact congrArg (· + 1) (ih _)

theorem trail_append (p : Standing) (as bs : List Kind) :
    p.trail (as ++ bs) = p.trail as ++ (p.afterAll as).trail bs := by
  induction as generalizing p with
  | nil => rfl
  | cons k as ih => exact congrArg (p.after k :: ·) (ih _)

theorem getLast?_trail (p : Standing) (ks : List Kind) :
    ∀ q ∈ (p.trail ks).getLast?, q = p.afterAll ks := by
  induction ks generalizing p with
  | nil =>
    intro q hq
    cases hq
  | cons k ks ih =>
    intro q hq
    cases ks with
    | nil => exact (Option.mem_some.mp hq).symm
    | cons j js => exact ih (p.after k) q (by rwa [trail, trail, List.getLast?_cons_cons] at hq)

end Standing

/-- The kind that a token is taken for behind one of kind `last`: a reserved word behind a dot is
a plain name. -/
def kindTaken (last : Option Kind) (t : Token) : Kind :=
  if t.kind.isKeyword && last.any (· == .punct .dot) then .name else t.kind

/-- The kinds that tokens are taken for. -/
def kindsTaken (last : Option Kind) : List Token → List Kind
  | [] => []
  | t :: rest => kindTaken last t :: kindsTaken (some (kindTaken last t)) rest

/-- The states behind each of several tokens. -/
def statesFrom (indent : Bytes) (s : LayoutState) : List Token → List LayoutState
  | [] => []
  | t :: rest =>
    (step indent s t rest.head?).2 :: statesFrom indent (step indent s t rest.head?).2 rest

end Layout

/-- What stands in a state. -/
def LayoutState.standing (s : LayoutState) : Layout.Standing :=
  ⟨s.last.map (·.kind), s.frames, s.level⟩

namespace Layout

open Standing

variable {indent : Bytes} {s : LayoutState}

theorem effectiveKind_eq_kindTaken (s : LayoutState) (t : Token) :
    effectiveKind s t = kindTaken s.standing.last t := by
  unfold effectiveKind kindTaken LayoutState.standing
  rw [Option.any_map]

theorem isArrayLiteral_eq_opensArray (s : LayoutState) (kind : Kind) :
    Rules.isArrayLiteral kind s.last = s.standing.opensArray kind := by
  unfold Rules.isArrayLiteral opensArray LayoutState.standing
  cases s.last with
  | none => rfl
  | some l => rfl

/-- A token that is no code, a comment or the end, opens and closes nothing. -/
theorem after_of_not_code (p : Standing) {kind : Kind}
    (h : kind.isComment = true ∨ kind = .eof) : p.after kind = { p with last := some kind } := by
  have hlevel : p.level + 0 = p.level := Int.add_zero _
  cases kind with
  | lineComment | blockComment | hashbang | eof => exact congrArg (Standing.mk _ _) hlevel
  | _ => rcases h with h | h <;> cases h

/-- **A step changes what stands by the kind that the token is taken for.** Lines, columns, flags
and the token after it play no part. -/
theorem standing_step (t : Token) (next : Option Token) :
    (step indent s t next).2.standing = s.standing.after (kindTaken s.standing.last t) := by
  have hkeyword : t.kind.isKeyword = false → kindTaken s.standing.last t = t.kind := by
    intro h
    rw [kindTaken, h, Bool.false_and]
    exact if_neg Bool.false_ne_true
  by_cases hk : t.kind = .eof
  · rw [step_eof hk, hkeyword (by rw [hk]; rfl), after_of_not_code _ (.inr hk), hk]
    rfl
  · cases hc : t.isComment with
    -- comments change nothing but the flags for white space
    | true =>
      have hword : t.kind.isKeyword = false := by
        unfold Token.isComment at hc
        cases hkind : t.kind <;> rw [hkind] at hc <;> first | rfl | cases hc
      rw [step_comment hc, hkeyword hword, after_of_not_code _ (.inl hc)]
      rfl
    | false =>
      rw [step_plain hc hk, ← effectiveKind_eq_kindTaken]
      unfold plain Standing.after
      rw [isArrayLiteral_eq_opensArray]
      dsimp only [LayoutState.standing, remember, Option.map_some]
      split
      · rfl
      · rw [Int.add_zero]

theorem map_standing_statesFrom (ts : List Token) :
    (statesFrom indent s ts).map LayoutState.standing =
      s.standing.trail (kindsTaken s.standing.last ts) := by
  induction ts generalizing s with
  | nil => rfl
  | cons t ts ih =>
    rw [statesFrom, List.map_cons, ih, standing_step, kindsTaken, trail]
    rfl

theorem length_kindsTaken (last : Option Kind) (ts : List Token) :
    (kindsTaken last ts).length = ts.length := by
  induction ts generalizing last with
  | nil => rfl
  | cons t ts ih => exact congrArg (· + 1) (ih _)

/-- What a token is taken for does not depend on what follows it. -/
theorem kindsTaken_append (last : Option Kind) (as bs : List Token) :
    ∃ ks, kindsTaken last (as ++ bs) = kindsTaken last as ++ ks := by
  induction as generalizing last with
  | nil => exact ⟨_, rfl⟩
  | cons t as ih =>
    obtain ⟨ks, hks⟩ := ih (some (kindTaken last t))
    exact ⟨ks, congrArg (kindTaken last t :: ·) hks⟩

/-! ## The grammar -/

/-- What a segment stands directly in, as far as that decides what it can hold. -/
inductive Enclosure
  /-- A bracket, or nothing. -/
  | bracket
  /-- A conditional operator or a label, up to its colon. -/
  | label
  /-- A `do` loop, up to its `while`. -/
  | doLoop
deriving DecidableEq

/-- The kind that ends what a segment stands in, and is no bracket. -/
def Enclosure.endsAt : Enclosure → Kind → Bool
  | bracket, _ => false
  | label, k => k = .punct .colon
  | doLoop, k => k = .keyword .whileKw

/-- The kinds that open or close something wherever they stand. -/
def isDelimiter : Kind → Bool
  | .punct .braceL | .punct .braceR | .punct .parenL | .punct .parenR | .punct .bracketL
  | .punct .bracketR | .punct .dollarBraceL | .punct .question | .keyword .doKw
  | .keyword .switchKw | .keyword .caseKw | .keyword .defaultKw => true
  | _ => false

/-- What is opened and closed by single tokens: how it starts, how it ends, and what its contents
stand in. -/
def groups : List (Kind × Kind × Enclosure) := [
  (.punct .braceL, .punct .braceR, .bracket),
  (.punct .parenL, .punct .parenR, .bracket),
  (.punct .bracketL, .punct .bracketR, .bracket),
  (.punct .dollarBraceL, .punct .braceR, .bracket),
  (.punct .question, .punct .colon, .label),
  (.keyword .caseKw, .punct .colon, .label),
  (.keyword .defaultKw, .punct .colon, .label),
  (.keyword .doKw, .keyword .whileKw, .doLoop)]

/-- Well-nested code that stands in an enclosure. -/
inductive Segment : Enclosure → List Kind → Prop
  | nil {e} : Segment e []
  | plain {e k rest} (hk : isDelimiter k = false) (he : e.endsAt k = false)
    (hrest : Segment e rest) : Segment e (k :: rest)
  | group {e o c i inner rest} (hg : (o, c, i) ∈ groups) (hinner : Segment i inner)
    (hrest : Segment e rest) : Segment e (o :: inner ++ c :: rest)
  | switch {e head body rest} (hhead : Segment .bracket head) (hbody : Segment .bracket body)
    (hrest : Segment e rest) :
    Segment e (.keyword .switchKw :: (.punct .parenL :: head ++ .punct .parenR ::
      (.punct .braceL :: body ++ .punct .braceR :: rest)))

/-- Whether what is open fits what a segment stands in. -/
def Enclosure.Holds : Enclosure → List Frame → Prop
  | bracket, frames =>
    ∀ f ∈ frames.head?, f ∈ [.brace, .paren, .bracket, .arrayLiteral, .substitution]
  | label, frames => ∃ f ∈ [Frame.ternary, .caseLabel, .defaultLabel], frames.head? = some f
  | doLoop, frames => frames.head? = some .doBody

instance (e : Enclosure) (frames : List Frame) : Decidable (e.Holds frames) := by
  cases e
  all_goals
    unfold Enclosure.Holds
    infer_instance

/-- A segment never stands between a `switch` and its braces. -/
theorem Enclosure.Holds.head_ne_switchBody {e : Enclosure} {frames : List Frame}
    (h : e.Holds frames) : frames.head? ≠ some .switchBody := by
  intro hs
  cases e with
  | bracket => exact absurd (h _ hs) (by decide)
  | label =>
    obtain ⟨f, hf, hhead⟩ := h
    rw [hs] at hhead
    cases hhead
    exact absurd hf (by decide)
  | doLoop =>
    rw [show frames.head? = some .doBody from h] at hs
    cases hs

/-! ## One token -/

namespace Standing

variable {p : Standing} {k : Kind} {f : Frame} {base : List Frame}

/-- A token that opens a frame puts it on the stack, with the level it asks for. -/
theorem after_opening (h : Frame.opened? k (p.opensArray k) = some f) :
    p.after k = ⟨some k, f :: p.frames, p.level + f.indent⟩ := by
  -- only a bracket asks whether it opens an array literal
  have hno : k ≠ .punct .bracketL → p.opensArray k = false := by
    intro hk
    rw [opensArray, decide_eq_false hk, Bool.false_and]
  unfold after
  generalize p.opensArray k = array at h hno ⊢
  unfold Frame.opened? at h
  split at h <;> cases h
  case h_3 => cases array <;> rfl
  all_goals
    cases hno (by decide)
    rfl

/-- The tokens that close a frame. -/
def closer : Frame → List Kind
  | .brace | .substitution => [.punct .braceR]
  | .paren => [.punct .parenR]
  | .bracket | .arrayLiteral => [.punct .bracketR]
  | .ternary | .caseLabel | .defaultLabel => [.punct .colon]
  | .doBody => [.keyword .whileKw]
  | .switchBody => []

/-- A token that closes the innermost frame takes it away, with the level it asked for. -/
theorem after_closing (hframes : p.frames = f :: base) (hk : k ∈ closer f)
    (hbase : k = .punct .braceR → base.head? ≠ some .switchBody) :
    p.after k = ⟨some k, base, p.level - f.indent⟩ := by
  have hindent : ∀ level : Int, level - 1 + 0 = level - 1 ∧ level + 0 = level - 0 := by
    intro level
    omega
  -- behind a brace that ends no `switch`
  have hafter : base.head? ≠ some .switchBody →
      Frame.afterToken (.punct .braceR) (f :: base) = base
        ∧ levelBefore (.punct .braceR) (.brace :: base) p.level = p.level - 1 := by
    intro hbase
    have hlast : ¬ ((Kind.punct .braceR = .punct .braceR)
        ∧ (Frame.brace :: base)[1]? = some .switchBody) := by
      rintro ⟨-, hget⟩
      exact hbase (List.head?_eq_getElem?.trans hget)
    refine ⟨?_, ?_⟩
    · cases base with
      | nil => rfl
      | cons g base => cases g <;> first | rfl | exact absurd rfl hbase
    · unfold levelBefore
      exact if_neg hlast
  unfold after
  cases f
  case switchBody => cases hk
  all_goals
    obtain rfl : k = _ := List.mem_singleton.mp hk
    dsimp only [Frame.opened?, Option.toList_none, List.nil_append]
    rw [hframes]
  case brace =>
    rw [(hafter (hbase rfl)).1, (hafter (hbase rfl)).2]
    exact congrArg (Standing.mk _ _) (hindent _).1
  case substitution =>
    rw [(hafter (hbase rfl)).1]
    exact congrArg (Standing.mk _ _) (hindent _).2
  case arrayLiteral => exact congrArg (Standing.mk _ _) (hindent _).1
  all_goals exact congrArg (Standing.mk _ _) (hindent _).2

/-- The brace that ends the body of a `switch` ends the `switch` too. -/
theorem after_switchEnd (hframes : p.frames = .brace :: .switchBody :: base) :
    p.after (.punct .braceR) =
      ⟨some (.punct .braceR), base, p.level - Frame.brace.indent - Frame.switchBody.indent⟩ := by
  have hlevel : p.level - 2 + 0 = p.level - 1 - 1 := by omega
  unfold after
  dsimp only [Frame.opened?, Option.toList_none, List.nil_append]
  rw [hframes]
  exact congrArg (Standing.mk _ _) hlevel

/-- All other tokens change nothing where they can stand. -/
theorem after_plain {e : Enclosure} (hk : isDelimiter k = false) (he : e.endsAt k = false)
    (hholds : e.Holds p.frames) : p.after k = { p with last := some k } := by
  have hbracket : k ≠ .punct .bracketL := by
    rintro rfl
    cases hk
  have harray : p.opensArray k = false := by
    rw [opensArray, decide_eq_false hbracket, Bool.false_and]
  have hopened : Frame.opened? k false = none := by
    unfold Frame.opened?
    split <;> first | rfl | cases hk
  have hcloses : Frame.closes k p.frames = false := by
    unfold Frame.closes
    split
    · cases hk
    · cases hk
    · cases hk
    · -- a colon closes a conditional or a label, and is no part of what stands directly in one
      cases e with
      | label => cases he
      | bracket =>
        split
        all_goals first | rfl | (next hhead => exact absurd (hholds _ hhead) (by decide))
      | doLoop =>
        rw [show p.frames.head? = some .doBody from hholds]
    · -- a `while` closes a loop, and is no part of what stands directly in one
      cases e with
      | doLoop => cases he
      | bracket =>
        refine beq_eq_false_iff_ne.mpr fun hhead => ?_
        exact absurd (hholds _ hhead) (by decide)
      | label =>
        obtain ⟨f, hf, hhead⟩ := hholds
        rw [hhead]
        refine beq_eq_false_iff_ne.mpr fun hdo => ?_
        cases hdo
        exact absurd hf (by decide)
    · rfl
  have hdedents : Frame.dedents k p.frames = false := by
    unfold Frame.dedents
    split <;> first | rfl | cases hk
  have hindents : Frame.indents k false = false := by
    unfold Frame.indents
    split <;> first | rfl | cases hk
  unfold after levelBefore Frame.afterToken
  rw [harray]
  dsimp only
  rw [hopened, Option.toList_none, List.nil_append, hcloses, hdedents, hindents,
    if_neg Bool.false_ne_true, if_neg Bool.false_ne_true, if_neg Bool.false_ne_true, Int.add_zero]

/-! ## What is opened and closed -/

/-- Above the frames `base`, at `level`: the level is raised once by each indenting frame. -/
def Above (base : List Frame) (level : Int) (q : Standing) : Prop :=
  ∃ above, q.frames = above ++ base ∧ q.level = level + above.countP Frame.isIndenting

theorem above_self (p : Standing) : Above p.frames p.level p :=
  ⟨[], rfl, (Int.add_zero _).symm⟩

/-- What is above something is above all that is below it. -/
theorem Above.trans {q : Standing} {level : Int} (h : Above p.frames p.level q)
    (hp : Above base level p) : Above base level q := by
  obtain ⟨above, hframes, hlevel⟩ := h
  obtain ⟨below, hframes', hlevel'⟩ := hp
  refine ⟨above ++ below, by rw [hframes, hframes', List.append_assoc], ?_⟩
  rw [hlevel, hlevel', List.countP_append, Int.natCast_add]
  omega

/-- One more frame. -/
theorem Above.cons {q : Standing} {level : Int} (hp : Above base level p)
    (hframes : q.frames = f :: p.frames) (hlevel : q.level = p.level + f.indent) :
    Above base level q := by
  refine Above.trans ⟨[f], hframes, ?_⟩ hp
  rw [hlevel, Frame.indent, List.countP_singleton]
  cases f.isIndenting <;> rfl

/-- The kinds lead down to the frames `base` at `level`, and up to there the level follows the
frames above these. -/
structure Leads (p : Standing) (ks : List Kind) (base : List Frame) (level : Int) : Prop where
  follows : ∀ q ∈ p.trail ks, Above base level q
  frames : (p.afterAll ks).frames = base
  level : (p.afterAll ks).level = level

/-- The kinds lead back to where they started. -/
def Restores (p : Standing) (ks : List Kind) : Prop := p.Leads ks p.frames p.level

theorem restores_nil (p : Standing) : p.Restores [] :=
  ⟨fun _ hq => (List.not_mem_nil hq).elim, rfl, rfl⟩

theorem Leads.cons {ks : List Kind} {level : Int} (hk : Above base level (p.after k))
    (hks : (p.after k).Leads ks base level) : p.Leads (k :: ks) base level := by
  refine ⟨fun q hq => ?_, hks.frames, hks.level⟩
  rcases List.mem_cons.mp hq with rfl | hq
  · exact hk
  · exact hks.follows q hq

/-- The last token. -/
theorem leads_singleton {level : Int} (hframes : (p.after k).frames = base)
    (hlevel : (p.after k).level = level) : p.Leads [k] base level := by
  subst hframes hlevel
  exact (restores_nil _).cons (above_self _)

/-- What leads back to where it started may stand in front. -/
theorem Restores.append {as bs : List Kind} {level : Int} (ha : p.Restores as)
    (hp : Above base level p)
    (hb : ∀ q : Standing, q.frames = p.frames → q.level = p.level → q.Leads bs base level) :
    p.Leads (as ++ bs) base level := by
  have hbs := hb (p.afterAll as) ha.frames ha.level
  refine ⟨fun q hq => ?_, ?_, ?_⟩
  · rw [trail_append] at hq
    rcases List.mem_append.mp hq with hq | hq
    · exact (ha.follows q hq).trans hp
    · exact hbs.follows q hq
  · rw [afterAll_append, hbs.frames]
  · rw [afterAll_append, hbs.level]

theorem restores_plain {e : Enclosure} (hk : isDelimiter k = false) (he : e.endsAt k = false)
    (hholds : e.Holds p.frames) : p.Restores [k] := by
  have hafter := after_plain hk he hholds
  exact leads_singleton (by rw [hafter]) (by rw [hafter])

/-- The frame that a group stands in. -/
theorem frame_of_group {o c : Kind} {i : Enclosure} (hg : (o, c, i) ∈ groups) (array : Bool) :
    ∃ f, Frame.opened? o array = some f ∧ c ∈ closer f ∧ ∀ base, i.Holds (f :: base) := by
  simp only [groups, List.mem_cons, List.not_mem_nil, or_false, Prod.mk.injEq] at hg
  have hbracket : ∀ f ∈ [Frame.brace, .paren, .bracket, .arrayLiteral, .substitution],
      ∀ base, Enclosure.bracket.Holds (f :: base) := by
    intro f hf base g hg
    rw [← Option.mem_some.mp hg]
    exact hf
  rcases hg with ⟨rfl, rfl, rfl⟩ | ⟨rfl, rfl, rfl⟩ | ⟨rfl, rfl, rfl⟩ | ⟨rfl, rfl, rfl⟩ |
    ⟨rfl, rfl, rfl⟩ | ⟨rfl, rfl, rfl⟩ | ⟨rfl, rfl, rfl⟩ | ⟨rfl, rfl, rfl⟩
  · exact ⟨.brace, rfl, by decide, hbracket _ (by decide)⟩
  · exact ⟨.paren, rfl, by decide, hbracket _ (by decide)⟩
  · cases array
    · exact ⟨.bracket, rfl, by decide, hbracket _ (by decide)⟩
    · exact ⟨.arrayLiteral, rfl, by decide, hbracket _ (by decide)⟩
  · exact ⟨.substitution, rfl, by decide, hbracket _ (by decide)⟩
  · exact ⟨.ternary, rfl, by decide, fun base => ⟨_, by decide, rfl⟩⟩
  · exact ⟨.caseLabel, rfl, by decide, fun base => ⟨_, by decide, rfl⟩⟩
  · exact ⟨.defaultLabel, rfl, by decide, fun base => ⟨_, by decide, rfl⟩⟩
  · exact ⟨.doBody, rfl, by decide, fun base => rfl⟩

/-- **A group restores what it stands in.** -/
theorem restores_group {o c : Kind} {i : Enclosure} {inner : List Kind}
    (hg : (o, c, i) ∈ groups) (hinner : ∀ q : Standing, i.Holds q.frames → q.Restores inner)
    (htop : c = .punct .braceR → p.frames.head? ≠ some .switchBody) :
    p.Restores (o :: inner ++ [c]) := by
  obtain ⟨f, hopened, hcloser, hholds⟩ := frame_of_group hg (p.opensArray o)
  obtain ⟨hframes, hlevel⟩ : (p.after o).frames = f :: p.frames
      ∧ (p.after o).level = p.level + f.indent := by
    rw [after_opening hopened]
    exact ⟨rfl, rfl⟩
  have habove : Above p.frames p.level (p.after o) := (above_self p).cons hframes hlevel
  have hrestores : (p.after o).Restores inner := hinner _ (by rw [hframes]; exact hholds _)
  refine .cons habove (hrestores.append habove fun q hq hq' => ?_)
  have hclosed := after_closing (hq.trans hframes) hcloser htop
  refine leads_singleton (by rw [hclosed]) ?_
  rw [hclosed, hq', hlevel]
  exact Int.add_sub_cancel _ _

/-- **A `switch` restores what it stands in**: it raises the level twice, and its last brace lowers
it twice. -/
theorem restores_switch {head body : List Kind}
    (hhead : ∀ q : Standing, Enclosure.bracket.Holds q.frames → q.Restores head)
    (hbody : ∀ q : Standing, Enclosure.bracket.Holds q.frames → q.Restores body) :
    p.Restores (.keyword .switchKw :: (.punct .parenL :: head ++ [.punct .parenR]) ++
      (.punct .braceL :: body ++ [.punct .braceR])) := by
  obtain ⟨hsframes, hslevel⟩ : (p.after (.keyword .switchKw)).frames = .switchBody :: p.frames
      ∧ (p.after (.keyword .switchKw)).level = p.level + Frame.switchBody.indent := by
    rw [after_opening (f := .switchBody) rfl]
    exact ⟨rfl, rfl⟩
  have habove : Above p.frames p.level (p.after (.keyword .switchKw)) :=
    (above_self p).cons hsframes hslevel
  -- a parenthesis closes its own frame only, also where a `switch` is innermost
  have hparens : (p.after (.keyword .switchKw)).Restores (.punct .parenL :: head ++
      [.punct .parenR]) :=
    restores_group (i := .bracket) (by decide) hhead fun h => by cases h
  refine .cons habove (hparens.append habove fun q hq hq' => ?_)
  obtain ⟨hbframes, hblevel⟩ : (q.after (.punct .braceL)).frames = .brace :: q.frames
      ∧ (q.after (.punct .braceL)).level = q.level + Frame.brace.indent := by
    rw [after_opening (f := .brace) rfl]
    exact ⟨rfl, rfl⟩
  have hqabove : Above p.frames p.level q :=
    (above_self p).cons (hq.trans hsframes) (hq'.trans hslevel)
  have hbabove := hqabove.cons hbframes hblevel
  have hholds : Enclosure.bracket.Holds (q.after (.punct .braceL)).frames := by
    rw [hbframes]
    intro f hf
    rw [← Option.mem_some.mp hf]
    decide
  refine .cons hbabove ((hbody _ hholds).append hbabove fun r hr hr' => ?_)
  have hend := after_switchEnd (p := r) (hr.trans (hbframes.trans (by rw [hq, hsframes])))
  refine leads_singleton (by rw [hend]) ?_
  rw [hend, hr', hblevel, hq', hslevel, Int.add_sub_cancel, Int.add_sub_cancel]

end Standing

/-! ## Whole segments -/

/-- **A segment restores what it stands in**, by induction on the segment. -/
theorem Segment.restores {e : Enclosure} {ks : List Kind} (h : Segment e ks) :
    ∀ p : Standing, e.Holds p.frames → p.Restores ks := by
  induction h with
  | nil => exact fun p _ => restores_nil p
  | @plain e k rest hk he _ ih =>
    intro p hp
    -- behind each part the rest stands in what the part stood in
    refine (restores_plain hk he hp).append (above_self p) fun q hq hq' => ?_
    rw [← hq, ← hq']
    exact ih q (hq ▸ hp)
  | @group e o c i inner rest hg _ _ ihinner ihrest =>
    intro p hp
    have hgroup := restores_group hg ihinner fun _ => hp.head_ne_switchBody
    rw [List.append_cons]
    refine hgroup.append (above_self p) fun q hq hq' => ?_
    rw [← hq, ← hq']
    exact ihrest q (hq ▸ hp)
  | @switch e head body rest _ _ _ ihhead ihbody ihrest =>
    intro p hp
    have hswitch := restores_switch (p := p) ihhead ihbody
    have hlist : Kind.keyword .switchKw :: (.punct .parenL :: head ++ .punct .parenR ::
        (.punct .braceL :: body ++ .punct .braceR :: rest)) =
        (.keyword .switchKw :: (.punct .parenL :: head ++ [.punct .parenR]) ++
          (.punct .braceL :: body ++ [.punct .braceR])) ++ rest := by
      simp only [List.append_assoc, List.cons_append, List.nil_append]
    rw [hlist]
    refine hswitch.append (above_self p) fun q hq hq' => ?_
    rw [← hq, ← hq']
    exact ihrest q (hq ▸ hp)

/-- **Indentation follows what is open.** Wherever a segment stands between brackets or outside of
all, and whatever follows it: behind each of its tokens the level has risen by the number of
braces, array literals and `switch`es that are open above what was open before, and behind the last
one both frames and level are what they were. -/
theorem statesFrom_segment (indent : Bytes) {s : LayoutState} {segment : List Token}
    (hs : Enclosure.bracket.Holds s.frames)
    (h : Segment .bracket (kindsTaken (s.last.map (·.kind)) segment)) (more : List Token) :
    (∀ st ∈ (statesFrom indent s (segment ++ more)).take segment.length,
      ∃ above, st.frames = above ++ s.frames
        ∧ st.level = s.level + above.countP Frame.isIndenting)
    ∧ ∀ st ∈ ((statesFrom indent s (segment ++ more)).take segment.length).getLast?,
      st.frames = s.frames ∧ st.level = s.level := by
  have hrestores : s.standing.Restores (kindsTaken s.standing.last segment) := h.restores _ hs
  -- what follows the segment plays no part in its own states
  have htrail : ((statesFrom indent s (segment ++ more)).take segment.length).map
      LayoutState.standing = s.standing.trail (kindsTaken s.standing.last segment) := by
    obtain ⟨ks, hks⟩ := kindsTaken_append s.standing.last segment more
    rw [List.map_take, map_standing_statesFrom, hks, trail_append]
    refine List.take_left' ?_
    rw [length_trail, length_kindsTaken]
  refine ⟨fun st hst => ?_, fun st hst => ?_⟩
  · have hmem : st.standing ∈ s.standing.trail (kindsTaken s.standing.last segment) := by
      rw [← htrail]
      exact List.mem_map_of_mem hst
    exact hrestores.follows _ hmem
  · have hlast : st.standing ∈
        (s.standing.trail (kindsTaken s.standing.last segment)).getLast? := by
      rw [← htrail, List.getLast?_map, Option.mem_def.mp hst]
      rfl
    have hend := getLast?_trail _ _ _ hlast
    refine ⟨?_, ?_⟩
    · exact (congrArg Standing.frames hend).trans hrestores.frames
    · exact (congrArg Standing.level hend).trans hrestores.level

/-- A `switch` whose body holds a label and what it labels. -/
def labelledSwitch : List Token := [
  ⟨.keyword .switchKw, utf8 "switch", ⟨1, 0, 0⟩, ⟨1, 6, 6⟩⟩,
  ⟨.punct .parenL, [], ⟨1, 6, 6⟩, ⟨1, 7, 7⟩⟩, ⟨.name, utf8 "a", ⟨1, 7, 7⟩, ⟨1, 8, 8⟩⟩,
  ⟨.punct .parenR, [], ⟨1, 8, 8⟩, ⟨1, 9, 9⟩⟩, ⟨.punct .braceL, [], ⟨1, 9, 9⟩, ⟨1, 10, 10⟩⟩,
  ⟨.keyword .caseKw, utf8 "case", ⟨1, 10, 10⟩, ⟨1, 14, 14⟩⟩,
  ⟨.name, utf8 "b", ⟨1, 15, 15⟩, ⟨1, 16, 16⟩⟩, ⟨.punct .colon, [], ⟨1, 16, 16⟩, ⟨1, 17, 17⟩⟩,
  ⟨.name, utf8 "c", ⟨1, 17, 17⟩, ⟨1, 18, 18⟩⟩, ⟨.punct .braceR, [], ⟨1, 18, 18⟩, ⟨1, 19, 19⟩⟩]

/-- In parentheses at the third level, behind the last brace everything is as before. -/
theorem statesFrom_segment_switch :
    Enclosure.bracket.Holds [.paren] ∧ Segment .bracket (kindsTaken none labelledSwitch)
      ∧ ∀ st ∈ ((statesFrom (utf8 "  ") { frames := [.paren], level := 3 }
          (labelledSwitch ++ [endToken])).take labelledSwitch.length).getLast?,
        st.frames = [.paren] ∧ st.level = 3 := by
  have hname : ∀ {e}, Segment e [.name] := .plain rfl (by cases ‹Enclosure› <;> rfl) .nil
  have hsegment : Segment .bracket (kindsTaken none labelledSwitch) :=
    @Segment.switch _ [.name] [.keyword .caseKw, .name, .punct .colon, .name] [] hname
      (@Segment.group _ _ _ .label [.name] [.name] (by decide) hname hname) .nil
  refine ⟨by decide, hsegment, ?_⟩
  exact (statesFrom_segment (utf8 "  ") (s := { frames := [.paren], level := 3 }) (by decide)
    hsegment [endToken]).2

end Layout

end ScriptTidy
