import ScriptTidy.Token.Punctuator

/-!
# Reading punctuators

`Punctuator.read?` takes the longest punctuator off the front of a text, as far as it looks. It
reads a punctuator back from its own text unless the next character makes something else of it.

* `read?_sound` : what is never read.
* `label_prefix_of_read?` : a punctuator is read from its own text only.
* `read?_label` : what is read, given a next character that does not extend it.
-/

namespace ScriptTidy.Punctuator

theorem orAssign_cases (plain assign : Punctuator) (r : List Char) :
    orAssign plain assign r = plain ∨ orAssign plain assign r = assign := by
  unfold orAssign
  split
  · exact Or.inr rfl
  · exact Or.inl rfl

/-- The opening of a substitution is never read as a punctuator of ordinary code, and slashes
start with a slash. -/
theorem read?_sound {cs : List Char} {p : Punctuator} (h : read? cs = some p) :
    p ≠ .dollarBraceL ∧ ((p = .slash ∨ p = .slashEq) → cs.head? = some '/') := by
  unfold read? at h
  split at h
  all_goals
    cases h
    try split
    try (rcases orAssign_cases _ _ _ with he | he <;> rw [he])
    all_goals simp

theorem prefix_orAssign {plain assign : Punctuator} {o r : List Char}
    (hplain : plain.label.toList = o) (hassign : assign.label.toList = o ++ ['=']) :
    (orAssign plain assign r).label.toList <+: o ++ r := by
  unfold orAssign
  split
  next h =>
    obtain ⟨rest, rfl⟩ := List.head?_eq_some_iff.mp h
    rw [hassign]
    exact ⟨rest, by simp⟩
  next =>
    rw [hplain]
    exact List.prefix_append _ _

/-- What is read stands at the front of the text. -/
theorem label_prefix_of_read? {cs : List Char} {p : Punctuator} (h : read? cs = some p) :
    p.label.toList <+: cs := by
  unfold read? at h
  split at h
  all_goals
    cases h
    try split
    first
    | exact ⟨_, rfl⟩
    | exact prefix_orAssign (o := [_]) rfl rfl
    | exact prefix_orAssign (o := [_, _]) rfl rfl
    | exact prefix_orAssign (o := [_, _, _]) rfl rfl
    | skip
  all_goals exact ⟨_, rfl⟩

theorem label_length_pos (p : Punctuator) : 0 < p.label.length := by
  cases p <;> decide

/-- The character would make something else of the punctuator. -/
def extendedBy (p : Punctuator) (ch : Char) : Bool :=
  match p with
  | .dot => ch == '.' || ('0' ≤ ch && ch ≤ '9')
  | .question => ch == '.' || ch == '?'
  | .questionDot => '0' ≤ ch && ch ≤ '9'
  | .slash => ch == '=' || ch == '*' || ch == '/'
  | .star => ch == '*' || ch == '='
  | .bitOr => ch == '|' || ch == '='
  | .bitAnd => ch == '&' || ch == '='
  | .plus => ch == '+' || ch == '='
  | .minus => ch == '-' || ch == '='
  | .less => ch == '<' || ch == '='
  | .greater | .shr | .eq => ch == '>' || ch == '='
  | .coalesce | .percent | .bitXor | .starStar | .orOr | .andAnd | .shl | .ushr | .equal | .not
  | .notEqual => ch == '='
  | _ => false

/-- **A punctuator is read from its text in front of anything that does not extend it.** -/
theorem read?_label {p : Punctuator} (hp : p ≠ .dollarBraceL) {r : List Char}
    (h : ∀ ch ∈ r.head?, extendedBy p ch = false) : read? (p.label.toList ++ r) = some p := by
  cases r with
  | nil =>
    revert hp
    cases p <;> decide
  | cons ch r =>
    have hch : extendedBy p ch = false := h ch rfl
    cases p
    all_goals
      simp only [extendedBy, Bool.or_eq_false_iff, beq_eq_false_iff_ne, ne_eq] at hch
      first
      | rfl
      | exact absurd rfl hp
      | skip
    all_goals
      simp only [label, String.reduceToList, List.cons_append, List.nil_append]
      simp [read?, orAssign, startsWithDigit, hch]

theorem ascii_label (p : Punctuator) : p.label.toList.all (·.toNat < 0x80) = true := by
  cases p <;> decide

theorem label_length_le (p : Punctuator) : p.label.toList.length ≤ 4 := by
  cases p <;> decide

theorem label_length (p : Punctuator) : p.label.length = p.label.toList.length := by
  cases p <;> rfl

/-- The first character of a punctuator. -/
def firstChar (p : Punctuator) : Char := p.label.toList.headD ' '

theorem label_toList (p : Punctuator) : p.label.toList = p.firstChar :: p.label.toList.tail := by
  cases p <;> rfl

end ScriptTidy.Punctuator
