import Mathlib.Data.List.TakeDrop
import ScriptTidy.Proofs.Token.Punctuator

/-!
# The longest punctuator

Several punctuators can stand at the front of a text, each a beginning of the next. `read?` decides
with a look at single characters; here it is compared with a search for the longest one among all of
them.

* `StandsAt` : a punctuator that may be read at the front of a text, and `Longest` among those.
* `read?_eq_some_iff` : what is read is the longest.
* `read?_eq_none_iff` : nothing is read only where no punctuator stands.
-/

namespace ScriptTidy.Punctuator

/-- The text of the punctuator is the front of the characters, and it counts there: the opening of a
substitution never does, and `?.` does not in front of a digit. -/
structure StandsAt (p : Punctuator) (cs : List Char) : Prop where
  ne_substitution : p ≠ .dollarBraceL
  label : p.label.toList <+: cs
  no_digit : p = .questionDot → startsWithDigit (cs.drop 2) = false

/-- No punctuator that stands at the front is longer. -/
structure Longest (p : Punctuator) (cs : List Char) : Prop extends p.StandsAt cs where
  longest : ∀ q : Punctuator, q.StandsAt cs → q.label.length ≤ p.label.length

variable {p q : Punctuator} {cs r : List Char} {ch : Char}

/-! ## What is longer -/

/-- A character that makes something else of a punctuator makes a longer one of it, except where two
more characters decide. -/
theorem exists_longer (hp : p ≠ .dot ∧ p ≠ .question ∧ p ≠ .questionDot ∧ p ≠ .slash)
    (h : extendedBy p ch = true) :
    ∃ q ∈ all, q.label.toList = p.label.toList ++ [ch] ∧ q ≠ .dollarBraceL ∧ q ≠ .questionDot := by
  cases p
  all_goals simp [extendedBy] at h hp
  all_goals
    first
    | subst h
      decide
    | rcases h with rfl | rfl
      · decide
      · decide

theorem standsAt_append (hp : p ≠ .dollarBraceL) (hdot : p ≠ .questionDot) :
    p.StandsAt (p.label.toList ++ r) :=
  ⟨hp, List.prefix_append _ _, fun h => absurd h hdot⟩

/-- If the longest punctuator is known, the ones that are longer do not stand there. -/
theorem Longest.not_standsAt (h : Longest p cs) (hlength : p.label.length < q.label.length) :
    ¬ q.StandsAt cs := by
  intro hq
  have hle := h.longest q hq
  omega

theorem Longest.extendedBy_eq_false (h : Longest p (p.label.toList ++ ch :: r))
    (hp : p ≠ .dot ∧ p ≠ .question ∧ p ≠ .questionDot ∧ p ≠ .slash) :
    extendedBy p ch = false := by
  by_contra hextended
  obtain ⟨q, -, hlabel, hdollar, hdot⟩ := exists_longer hp (Bool.not_eq_false _ ▸ hextended)
  have hstands : q.StandsAt (p.label.toList ++ ch :: r) := by
    have htext : p.label.toList ++ ch :: r = q.label.toList ++ r := by simp [hlabel]
    rw [htext]
    exact standsAt_append hdollar hdot
  refine h.not_standsAt ?_ hstands
  rw [label_length, label_length, hlabel, List.length_append]
  exact Nat.lt_succ_self _

/-! ## The longest is read -/

/-- Two points are no punctuator, so that one point is read of them. -/
theorem read?_dot (h : Longest .dot ('.' :: r)) : read? ('.' :: r) = some .dot := by
  rw [read?]
  intro tail hr
  subst hr
  exact h.not_standsAt (q := .ellipsis) (by decide)
    (standsAt_append (p := .ellipsis) (by decide) (by decide))

/-- In front of a digit a question mark stays alone. -/
theorem read?_question (h : Longest .question ('?' :: r)) :
    read? ('?' :: r) = some .question := by
  by_cases hpoint : ∃ tail, r = '.' :: tail
  · obtain ⟨tail, rfl⟩ := hpoint
    show some (if startsWithDigit tail then Punctuator.question else .questionDot) = _
    by_cases hdigit : startsWithDigit tail = true
    · rw [if_pos hdigit]
    · exact absurd ⟨by decide, List.prefix_append _ _, fun _ => Bool.not_eq_true _ ▸ hdigit⟩
        (h.not_standsAt (q := .questionDot) (by decide))
  · rw [read?]
    · intro tail hr
      exact hpoint ⟨tail, hr⟩
    · intro tail hr
      subst hr
      exact h.not_standsAt (q := .coalesce) (by decide)
        (standsAt_append (p := .coalesce) (by decide) (by decide))

theorem read?_slash (h : Longest .slash ('/' :: r)) : read? ('/' :: r) = some .slash := by
  show some (orAssign .slash .slashEq r) = _
  unfold orAssign
  by_cases hassign : r.head? = some '='
  · obtain ⟨tail, rfl⟩ := List.head?_eq_some_iff.mp hassign
    exact absurd (standsAt_append (p := .slashEq) (by decide) (by decide))
      (h.not_standsAt (q := .slashEq) (by decide))
  · rw [if_neg hassign]

theorem read?_of_longest (h : Longest p cs) : read? cs = some p := by
  obtain ⟨r, rfl⟩ := h.label
  by_cases hp : p ≠ .dot ∧ p ≠ .question ∧ p ≠ .questionDot ∧ p ≠ .slash
  · apply read?_label h.ne_substitution
    intro ch hch
    obtain ⟨tail, rfl⟩ := List.head?_eq_some_iff.mp hch
    exact h.extendedBy_eq_false hp
  · -- for these four one more character does not decide
    have hcases : p = .dot ∨ p = .question ∨ p = .questionDot ∨ p = .slash := by
      simpa only [not_and_or, not_not] using hp
    rcases hcases with rfl | rfl | rfl | rfl
    · exact read?_dot h
    · exact read?_question h
    · show some (if startsWithDigit r then Punctuator.question else .questionDot) = _
      have hdigit : startsWithDigit r = false := h.no_digit rfl
      rw [hdigit]
      rfl
    · exact read?_slash h

/-! ## Only the longest is read -/

/-- Labels are short, so among the punctuators that stand at the front there is a longest. -/
theorem StandsAt.exists_longest (h : p.StandsAt cs) : ∃ q : Punctuator, q.Longest cs := by
  induction hn : 4 - p.label.length using Nat.strongRecOn generalizing p with
  | ind n ih =>
    by_cases hlongest : ∀ q : Punctuator, q.StandsAt cs → q.label.length ≤ p.label.length
    · exact ⟨p, h, hlongest⟩
    · obtain ⟨q, hq, hlt⟩ : ∃ q : Punctuator, q.StandsAt cs ∧ p.label.length < q.label.length := by
        simpa using hlongest
      have hle : q.label.length ≤ 4 := q.label_length ▸ q.label_length_le
      exact ih (4 - q.label.length) (by omega) hq rfl

/-- `?.` is not read in front of a digit. -/
theorem startsWithDigit_of_read? (h : read? cs = some .questionDot) :
    startsWithDigit (cs.drop 2) = false := by
  obtain ⟨r, rfl⟩ := label_prefix_of_read? h
  have hread : some (if startsWithDigit r then Punctuator.question else .questionDot)
      = some .questionDot := h
  show startsWithDigit r = false
  by_contra hdigit
  rw [if_pos (Bool.not_eq_false _ ▸ hdigit)] at hread
  cases hread

theorem standsAt_of_read? (h : read? cs = some p) : p.StandsAt cs := by
  refine ⟨(read?_sound h).1, label_prefix_of_read? h, ?_⟩
  rintro rfl
  exact startsWithDigit_of_read? h

/-- **What is read is the longest punctuator.** -/
theorem read?_eq_some_iff : read? cs = some p ↔ p.Longest cs := by
  constructor
  · intro h
    obtain ⟨q, hq⟩ := (standsAt_of_read? h).exists_longest
    have hsame : some p = some q := h.symm.trans (read?_of_longest hq)
    cases hsame
    exact hq
  · exact read?_of_longest

/-- **Nothing is read only where none stands.** -/
theorem read?_eq_none_iff : read? cs = none ↔ ∀ p : Punctuator, ¬ p.StandsAt cs := by
  constructor
  · intro h p hp
    obtain ⟨q, hq⟩ := hp.exists_longest
    rw [read?_of_longest hq] at h
    cases h
  · intro h
    by_contra hread
    obtain ⟨p, hp⟩ := Option.ne_none_iff_exists'.mp hread
    exact h p (standsAt_of_read? hp)

/-! ## As far as it looks -/

theorem startsWithDigit_take (cs : List Char) (n : Nat) :
    startsWithDigit (cs.take (n + 1)) = startsWithDigit cs := by
  cases cs with
  | nil => rfl
  | cons ch cs => rfl

/-- Four characters tell all. -/
theorem standsAt_take : p.StandsAt (cs.take 4) ↔ p.StandsAt cs := by
  have hdigit : startsWithDigit ((cs.take 4).drop 2) = startsWithDigit (cs.drop 2) := by
    rw [List.drop_take]
    exact startsWithDigit_take _ 1
  constructor
  · intro h
    exact ⟨h.ne_substitution, (List.prefix_take_iff.mp h.label).1,
      fun hp => hdigit ▸ h.no_digit hp⟩
  · intro h
    exact ⟨h.ne_substitution, List.prefix_take_iff.mpr ⟨h.label, p.label_length_le⟩,
      fun hp => hdigit.trans (h.no_digit hp)⟩

theorem longest_take : p.Longest (cs.take 4) ↔ p.Longest cs := by
  constructor
  · intro h
    exact ⟨standsAt_take.mp h.toStandsAt, fun q hq => h.longest q (standsAt_take.mpr hq)⟩
  · intro h
    exact ⟨standsAt_take.mpr h.toStandsAt, fun q hq => h.longest q (standsAt_take.mp hq)⟩

/-- A punctuator takes as many bytes as it has characters. -/
theorem length_utf8_label (p : Punctuator) : (utf8 p.label).length = p.label.length := by
  cases p <;> rfl

end ScriptTidy.Punctuator
