import ScriptTidy.Layout.Format
import ScriptTidy.Proofs.Layout.Indentation
import ScriptTidy.Proofs.Layout.LineBreaks
import Mathlib.Data.List.GetD

/-!
# What is written between two neighbours

Somewhere in a list of tokens stand two next to each other. Of what comes before them, a step needs
to know the state only, and every state is one that the list before them leads to.

* `finished_append` : a run over a list goes on, behind each part of it, as a run over the rest.
* `formatTokens_neighbours` : the output of a list around two of its tokens.
-/

namespace ScriptTidy.Layout

variable {indent : Bytes} {s : LayoutState}

/-! ## Runs -/

/-- What is written for tokens behind a state, with the end that they may lack. -/
def finished (indent : Bytes) (s : LayoutState) (ts : List Token) : List Emission :=
  emissionsFrom indent s ts ++
    if ts.getLast?.any (·.kind == .eof) then []
    else [(step indent (stateAfter indent s ts) endToken none).1]

theorem emissions_eq_finished (indent : Bytes) (ts : List Token) :
    emissions indent ts = finished indent {} ts := by
  unfold emissions finished
  dsimp only
  split
  · exact (List.append_nil _).symm
  · rfl

theorem finished_cons {t : Token} {rest : List Token} (h : t.kind = .eof → rest ≠ []) :
    finished indent s (t :: rest) =
      (step indent s t rest.head?).1 :: finished indent (step indent s t rest.head?).2 rest := by
  have hlast : (t :: rest).getLast?.any (·.kind == .eof) =
      rest.getLast?.any (·.kind == .eof) := by
    cases rest with
    | nil => exact beq_eq_false_iff_ne.mpr fun hk => h hk rfl
    | cons u rest => rw [List.getLast?_cons_cons]
  unfold finished
  rw [hlast]
  rfl

/-- All bytes that are written for tokens behind a state. -/
def bytesBehind (indent : Bytes) (s : LayoutState) (ts : List Token) : Bytes :=
  (finished indent s ts).flatMap Emission.bytes

theorem bytesBehind_cons {t : Token} {rest : List Token} (h : t.kind = .eof → rest ≠ []) :
    bytesBehind indent s (t :: rest) = (step indent s t rest.head?).1.bytes ++
      bytesBehind indent (step indent s t rest.head?).2 rest := by
  rw [bytesBehind, finished_cons h, List.flatMap_cons]
  rfl

/-- What a step leaves behind a token is a dot exactly if the token is one. -/
theorem last_step_eq_dot (indent : Bytes) (s : LayoutState) (t : Token) (next : Option Token) :
    (step indent s t next).2.standing.last = some (.punct .dot) ↔ t.kind = .punct .dot := by
  rw [standing_step]
  show some (kindTaken s.standing.last t) = some (.punct .dot) ↔ _
  rw [Option.some_inj, ← effectiveKind_eq_kindTaken]
  rcases rememberedAs_effectiveKind s t with he | ⟨hk, he⟩
  · rw [he]
  · rw [he]
    refine ⟨fun h => ?_, fun h => ?_⟩
    · cases h
    · rw [h] at hk
      cases hk

/-- Of the kind before it, a token's own kind depends on whether it is a dot. -/
theorem kindTaken_congr {last last' : Option Kind}
    (h : last = some (.punct .dot) ↔ last' = some (.punct .dot)) (t : Token) :
    kindTaken last t = kindTaken last' t := by
  have hdot : ∀ x : Option Kind, x.any (· == .punct .dot) = true ↔ x = some (.punct .dot) := by
    intro x
    cases x with
    | none => exact iff_of_false Bool.false_ne_true nofun
    | some k => rw [Option.any_some, beq_iff_eq, Option.some_inj]
  unfold kindTaken
  rw [Bool.eq_iff_iff.mpr ((hdot last).trans (h.trans (hdot last').symm))]

/-- **A run goes on behind each part of the list as a run over the rest**, from a state that knows
the kind of the last token of the part. -/
theorem finished_append (indent : Bytes) (s : LayoutState) (before : List Token) (sep : Token) :
    ∃ es s', es.length = before.length
      ∧ (s'.standing.last = some (.punct .dot) ↔
          (before.getLast?.map (·.kind)).or s.standing.last = some (.punct .dot))
      ∧ ∀ rest,
        finished indent s (before ++ sep :: rest) = es ++ finished indent s' (sep :: rest) := by
  induction before generalizing s with
  | nil => exact ⟨[], s, rfl, Iff.rfl, fun _ => rfl⟩
  | cons t before ih =>
    obtain ⟨es, s', hlength, hlast, hrun⟩ := ih (step indent s t (before ++ [sep]).head?).2
    refine ⟨(step indent s t (before ++ [sep]).head?).1 :: es, s', congrArg (· + 1) hlength,
      hlast.trans ?_, fun rest => ?_⟩
    · cases before with
      | nil =>
        rw [List.getLast?_singleton, Option.map_some, Option.some_or, Option.some_inj]
        exact last_step_eq_dot indent s t _
      | cons u before =>
        obtain ⟨v, hv⟩ : ∃ v, (u :: before).getLast? = some v :=
          Option.isSome_iff_exists.mp (List.getLast?_isSome.mpr (List.cons_ne_nil _ _))
        rw [List.getLast?_cons_cons, hv]
        rfl
    · have hhead : (before ++ sep :: rest).head? = (before ++ [sep]).head? := by
        cases before <;> rfl
      have hne : before ++ sep :: rest ≠ [] :=
        List.append_ne_nil_of_right_ne_nil _ (List.cons_ne_nil _ _)
      rw [List.cons_append, finished_cons fun _ => hne, hhead, hrun, List.cons_append]

/-! ## Two neighbours -/

/-- **The output around two neighbours**: the text of the first, what is between them, the text of
the second, and what is written behind it. All of it is written from a state that knows whether a
dot comes before the first. -/
theorem formatTokens_neighbours (o : Options) (before after : List Token) (l : Token) {t : Token}
    (ht : t.kind ≠ .eof) :
    ∃ s head,
      (∀ u, kindTaken s.standing.last u = kindTaken (before.getLast?.map (·.kind)) u)
      ∧ between (emissions o.indent (before ++ l :: t :: after)) before.length =
        (step o.indent s l (some t)).1.after.flatten ++
          (step o.indent (step o.indent s l (some t)).2 t after.head?).1.gap.flatten
      ∧ (formatTokens o (before ++ l :: t :: after)).code =
        head ++ (step o.indent s l (some t)).1.text ++
          between (emissions o.indent (before ++ l :: t :: after)) before.length ++
          (step o.indent (step o.indent s l (some t)).2 t after.head?).1.text ++
          ((step o.indent (step o.indent s l (some t)).2 t after.head?).1.after.flatten ++
            bytesBehind o.indent (step o.indent (step o.indent s l (some t)).2 t after.head?).2
              after) := by
  obtain ⟨es, s, hlength, hlast, hrun⟩ := finished_append o.indent {} before l
  rw [show ({} : LayoutState).standing.last = none from rfl, Option.or_none] at hlast
  have hemissions : emissions o.indent (before ++ l :: t :: after) =
      es ++ (step o.indent s l (some t)).1 ::
        (step o.indent (step o.indent s l (some t)).2 t after.head?).1 ::
        finished o.indent (step o.indent (step o.indent s l (some t)).2 t after.head?).2 after := by
    rw [emissions_eq_finished, hrun, finished_cons fun _ => List.cons_ne_nil _ _, List.head?_cons,
      finished_cons fun h => absurd h ht]
  -- the run over the tokens in front gives as many emissions as there are tokens
  have hbetween : between (emissions o.indent (before ++ l :: t :: after)) before.length =
      (step o.indent s l (some t)).1.after.flatten ++
        (step o.indent (step o.indent s l (some t)).2 t after.head?).1.gap.flatten := by
    unfold between
    rw [hemissions, ← hlength, List.getD_append_right _ _ _ _ (Nat.le_refl _),
      List.getD_append_right _ _ _ _ (Nat.le_add_right _ _), Nat.sub_self,
      Nat.add_sub_cancel_left]
    rfl
  refine ⟨s, (if o.leadingNewline then [0x0A] else []) ++ es.flatMap Emission.bytes ++
    (step o.indent s l (some t)).1.gap.flatten, kindTaken_congr hlast, hbetween, ?_⟩
  rw [hbetween]
  unfold formatTokens bytesBehind
  dsimp only
  rw [hemissions, List.flatMap_append, List.flatMap_cons, List.flatMap_cons, Emission.bytes,
    Emission.bytes]
  simp only [List.append_assoc]

end ScriptTidy.Layout
