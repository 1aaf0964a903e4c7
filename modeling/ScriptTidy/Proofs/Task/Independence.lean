import Mathlib.Algebra.Ring.Nat
import Mathlib.Data.List.Forall2
import ScriptTidy.Proofs.Task.Attempt

/-!
# The inputs of a command do not know of each other

A task that writes no files leaves the store as it is, so that each file of a command finds what
the first one found. If the outlet does with a text what it does with it at the beginning, then what
is printed for a file and how that ends is a matter of this file alone.

* `PrintsAlike` : the tasks that this is about.
* `comesTo_of_steady` : behind other texts a closing comes to what it comes to alone.
* `addFile_alone` : a file adds to a report what it comes to alone.
* `foldlM_singles` : so do files one after the other.
* `runAll_concatenates` : a command prints, counts and fails as its files do alone.
-/

namespace ScriptTidy

/-- The members of a failure, if there is one. -/
def membersOf (failure : Option Failure) : List Failure := (failure.map Failure.members).getD []

namespace Outcome

/-- What an input with this outcome adds to the number of inputs that were not accepted. Nothing,
if it failed. -/
def unformatted (o : Outcome) : Nat :=
  match o.failure with
  | some _ => 0
  | none => if o.accepted then 0 else 1

/-- What an input with this outcome adds to a list of failures. -/
def failures (o : Outcome) : List Failure := membersOf o.failure

end Outcome

/-! ## Outlets that heed only the text -/

/-- Whether an outlet does the same with a text, whatever is printed before it. -/
def Outlet.Steady (outlet : Outlet) : Prop := ∀ before text, outlet before text = outlet [] text

section Steady

variable {outlet : Outlet} (h : Outlet.Steady outlet)

include h

theorem Outlet.taken_of_steady (before text : Bytes) :
    Outlet.taken outlet before text = Outlet.taken outlet [] text := by
  unfold taken
  rw [h before text]

theorem Outlet.printed_of_steady (before : Bytes) (texts : List Bytes) :
    Outlet.printed outlet before texts = before ++ Outlet.printed outlet [] texts := by
  -- both texts in front grow, so that the induction is for any of them
  induction texts generalizing before with
  | nil => exact (List.append_nil before).symm
  | cons text texts ih =>
    calc Outlet.printed outlet before (text :: texts)
        = Outlet.printed outlet (before ++ Outlet.taken outlet [] text) texts := by
          rw [← Outlet.taken_of_steady h before text]; rfl
      _ = before ++ (Outlet.taken outlet [] text ++ Outlet.printed outlet [] texts) := by
          rw [ih, List.append_assoc]
      _ = before ++ Outlet.printed outlet [] (text :: texts) := by
          rw [← ih (Outlet.taken outlet [] text)]; rfl

/-- Whether a closing does without a highlighter. -/
def Closing.isPlain : Closing → Bool
  | highlighting _ _ => false
  | _ => true

/-- **A closing without a highlighter** comes to the same behind other texts as alone. -/
theorem Closing.comesTo_of_steady {c : Closing} (hplain : c.isPlain = true) (before : Bytes) :
    c.comesTo outlet before = (before ++ (c.comesTo outlet []).1, (c.comesTo outlet []).2) := by
  cases c with
  | telling texts ending =>
    simp only [comesTo]
    rw [Outlet.printed_of_steady h before]
  | showing code =>
    simp only [comesTo, List.nil_append]
    rw [Outlet.taken_of_steady h before, h before]
  | highlighting highlight code => cases hplain

end Steady

namespace Task

variable {t : Task} {name source stdin : Bytes} {names : List Bytes} {store : FileStore}
  {map : SourceMap} {p : Product} {s s' : Session} {r : Report} {whole single : Result}
  {singles : List Result} {broken : Halted}

/-- A task that writes no files and prints each text alike. -/
structure PrintsAlike (t : Task) : Prop where
  uncoded : t.out = []
  unmapped : t.mapFile = []
  plain : t.highlighter = none
  steady : Outlet.Steady t.outlet

/-! ## Runs that write no files -/

/-- Without names for its files, a run has none to write. -/
theorem files_attempt (h : t.PrintsAlike) (name source : Bytes) :
    (t.attempt name source).files = [] := by
  unfold attempt
  cases t.tokens with
  | true => rfl
  | false =>
    cases t.config.options? with
    | none => rfl
    | some o =>
      simp only [Bool.false_eq_true, if_false, formatting]
      cases (t.produce (optionsFor o name) name source).1 with
      | error f => rfl
      | ok p =>
        cases t.check with
        | true => rfl
        | false =>
          simp only [Bool.false_eq_true, if_false, delivery]
          split <;> simp [files, fileNamed, h.uncoded, h.unmapped]

theorem isPlain_closing (h : t.highlighter = none) : (t.closing map p).isPlain = true := by
  unfold closing answering showing
  rw [h]
  split
  · cases t.lookupLine map with
    | error reason => rfl
    | ok answer => cases answer <;> rfl
  · split <;> rfl

/-- Without a highlighter, the closing of a run is one without it. -/
theorem isPlain_attempt (h : t.highlighter = none) :
    (t.attempt name source).closing.isPlain = true := by
  unfold attempt
  cases t.tokens with
  | true =>
    simp only [if_true, listing]
    split <;> rfl
  | false =>
    cases t.config.options? with
    | none => rfl
    | some o =>
      simp only [Bool.false_eq_true, if_false, formatting]
      cases (t.produce (optionsFor o name) name source).1 with
      | error f => rfl
      | ok p =>
        cases t.check with
        | true =>
          simp only [if_true, comparison]
          split <;> rfl
        | false =>
          simp only [Bool.false_eq_true, if_false, delivery]
          split
          · exact isPlain_closing h
          · rfl

/-- What is printed for a file of a store, if nothing is printed before, and how that ends. -/
def comesToAlone (t : Task) (store : FileStore) (name : Bytes) : Bytes × Except Halt Outcome :=
  (t.attemptFile store name).closing.comesTo t.outlet []

/-- Work on a file that writes no files leaves the store as it is, and what it prints stands behind
what is printed. -/
theorem runFile_alone (h : t.PrintsAlike) (name : Bytes) (s : Session) :
    (t.runFile name s).aftermath = ⟨s.store, s.stdout ++ (t.comesToAlone s.store name).1,
      (t.comesToAlone s.store name).2⟩ := by
  have hfiles : (t.attemptFile s.store name).files = [] := by
    unfold attemptFile
    cases s.store.read name with
    | error fault => rfl
    | ok source => exact files_attempt h name source
  have hplain : (t.attemptFile s.store name).closing.isPlain = true := by
    unfold attemptFile
    cases s.store.read name with
    | error fault => rfl
    | ok source => exact isPlain_attempt h.plain
  rw [runFile_aftermath, aftermathIn, Attempt.aftermath, hfiles]
  simp only [FileStore.writeAll]
  rw [Closing.comesTo_of_steady h.steady hplain s.stdout]
  rfl

/-! ## A file more in a report -/

/-- A report with a file more, in the session behind it: the file has come to its end, or else the
report does not either. -/
def Report.after (r : Report) (s : Session) : Except Halt Outcome → Except Halted Report
  | .ok outcome => .ok ⟨r.unformatted + outcome.unformatted, r.failures ++ outcome.failures, s⟩
  | .error reason => .error ⟨reason, s⟩

/-- **A file adds to a report what it comes to alone**, behind what is printed. -/
theorem addFile_alone (h : t.PrintsAlike) (name : Bytes) (r : Report) :
    ∃ s', r.addFile t name = r.after s' (t.comesToAlone r.session.store name).2
      ∧ s'.store = r.session.store
      ∧ s'.stdout = r.session.stdout ++ (t.comesToAlone r.session.store name).1 := by
  have hafter := runFile_alone h name r.session
  unfold Report.addFile
  cases hrun : t.runFile name r.session with
  | ok ended =>
    obtain ⟨outcome, s'⟩ := ended
    rw [hrun, Progress.aftermath, Aftermath.mk.injEq] at hafter
    obtain ⟨hstore, hstdout, hend⟩ := hafter
    refine ⟨s', ?_, hstore, hstdout⟩
    rw [← hend]
    cases hf : outcome.failure <;>
      simp [Except.map, Report.after, Outcome.unformatted, Outcome.failures, membersOf,
        Failure.append, hf]
  | error halted =>
    obtain ⟨reason, s'⟩ := halted
    rw [hrun, Progress.aftermath, Aftermath.mk.injEq] at hafter
    obtain ⟨hstore, hstdout, hend⟩ := hafter
    exact ⟨s', by rw [← hend]; rfl, hstore, hstdout⟩

/-! ## A command and its report -/

/-- The failure of a command, if its files have failed in these ways. -/
def joined (failures : List Failure) : Option Failure :=
  if failures.isEmpty then none else some (.several failures)

/-- The failures that a command has joined. -/
def Result.failures (r : Result) : List Failure := membersOf r.failure

theorem isSome_joined (failures : List Failure) : (joined failures).isSome ↔ failures ≠ [] := by
  cases failures <;> simp [joined]

theorem membersOf_joined (failures : List Failure) : membersOf (joined failures) = failures := by
  cases failures <;> simp [membersOf, joined, Failure.members]

/-- The result of a command with this report. -/
def Report.result (r : Report) : Result := ⟨r.unformatted, joined r.failures, r.session⟩

theorem runAll_eq (h : names ≠ []) (stdin : Bytes) (s : Session) :
    t.runAll names stdin s = (names.foldlM (Report.addFile t) { session := s }).map
      Report.result := by
  rw [runAll, if_neg (by simpa using h)]
  rfl

/-- A command has failed if and only if it has failures to tell. -/
theorem isSome_failure (hnames : names ≠ []) (h : t.runAll names stdin s = .ok whole) :
    whole.failure.isSome ↔ whole.failures ≠ [] := by
  rw [runAll_eq hnames] at h
  cases hrun : names.foldlM (Report.addFile t) { session := s } with
  | error s' => simp [hrun, Except.map] at h
  | ok r =>
    simp only [hrun, Except.map, Except.ok.injEq] at h
    rw [← h, Result.failures, Report.result, membersOf_joined, isSome_joined]

theorem runAll_single (t : Task) (name stdin : Bytes) (s : Session) :
    t.runAll [name] stdin s = (Report.addFile t { session := s } name).map Report.result := by
  rw [runAll_eq (List.cons_ne_nil _ _), List.foldlM_cons]
  cases Report.addFile t { session := s } name <;> rfl

/-! ## Files one after the other -/

/-- A file that comes to a result alone adds it to a report. -/
theorem addFile_single (h : t.PrintsAlike)
    (hsingle : t.runAll [name] stdin { store := r.session.store } = .ok single) :
    ∃ s', r.addFile t name =
        .ok ⟨r.unformatted + single.unformatted, r.failures ++ single.failures, s'⟩
      ∧ s'.store = r.session.store ∧ s'.stdout = r.session.stdout ++ single.session.stdout := by
  obtain ⟨s₁, halone, -, hstdout₁⟩ :=
    addFile_alone h name { session := { store := r.session.store } }
  obtain ⟨s', hadd, hstore, hstdout⟩ := addFile_alone h name r
  rw [runAll_single, halone] at hsingle
  cases hend : (t.comesToAlone r.session.store name).2 with
  | error reason =>
    rw [hend] at hsingle
    cases hsingle
  | ok outcome =>
    rw [hend] at hsingle hadd
    cases hsingle
    refine ⟨s', ?_, hstore, hstdout.trans (congrArg (r.session.stdout ++ ·) hstdout₁.symm)⟩
    simp [hadd, Report.after, Report.result, Result.failures, membersOf_joined]

/-- A file that does not come to its end alone ends a report for the same reason. -/
theorem addFile_halted (h : t.PrintsAlike)
    (hbroken : t.runAll [name] stdin { store := r.session.store } = .error broken) :
    ∃ s', r.addFile t name = .error ⟨broken.reason, s'⟩
      ∧ s'.stdout = r.session.stdout ++ broken.session.stdout ∧ s'.store = r.session.store := by
  obtain ⟨s₁, halone, -, hstdout₁⟩ :=
    addFile_alone h name { session := { store := r.session.store } }
  obtain ⟨s', hadd, hstore, hstdout⟩ := addFile_alone h name r
  rw [runAll_single, halone] at hbroken
  cases hend : (t.comesToAlone r.session.store name).2 with
  | error reason =>
    rw [hend] at hbroken hadd
    cases hbroken
    exact ⟨s', hadd, hstdout.trans (congrArg (r.session.stdout ++ ·) hstdout₁.symm), hstore⟩
  | ok outcome =>
    rw [hend] at hbroken
    cases hbroken

/-- Files that come to results alone add them up. -/
theorem foldlM_singles (h : t.PrintsAlike)
    (hsingles : List.Forall₂ (fun name single => t.runAll [name] stdin { store } = .ok single)
      names singles) (hstore : r.session.store = store) :
    ∃ s', names.foldlM (Report.addFile t) r =
        .ok ⟨r.unformatted + (singles.map (·.unformatted)).sum,
          r.failures ++ singles.flatMap Result.failures, s'⟩
      ∧ s'.store = store
      ∧ s'.stdout = r.session.stdout ++ singles.flatMap (·.session.stdout) := by
  -- the report is general, since each file changes it; its store stays the one of the singles
  induction hsingles generalizing r with
  | nil => exact ⟨r.session, by simp [pure, Except.pure], hstore, by simp⟩
  | @cons name single names singles hsingle _ ih =>
    subst hstore
    obtain ⟨s₁, hadd, hstore₁, hstdout₁⟩ := addFile_single h hsingle
    obtain ⟨s', hrest, hstore', hstdout'⟩ := ih (r := ⟨_, _, s₁⟩) hstore₁
    refine ⟨s', ?_, hstore', ?_⟩
    · rw [List.foldlM_cons, hadd]
      simp only [bind, Except.bind]
      rw [hrest]
      simp [Nat.add_assoc]
    · rw [hstdout']
      simp [hstdout₁]

/-- The failures of files are joined to one if and only if a file has failed alone. -/
theorem isSome_joined_singles (h : List.Forall₂ (fun name single =>
      t.runAll [name] stdin { store } = .ok single) names singles) :
    (joined (singles.flatMap Result.failures)).isSome
      ↔ ∃ single ∈ singles, single.failure.isSome := by
  rw [isSome_joined]
  induction h with
  | nil => simp
  | @cons name single names singles hsingle _ ih =>
    simp only [List.mem_cons, exists_eq_or_imp]
    rw [← ih, isSome_failure (List.cons_ne_nil _ _) hsingle, List.flatMap_cons, ne_eq,
      List.append_eq_nil_iff, not_and_or]

/-- **The inputs of a command are independent.** If a task writes no files and prints each text
alike, a command with files prints, counts and fails as its files do alone, one after the other. If
one of them does not come to its end alone, then the command does not for the same reason, behind
what the files until then print. -/
theorem runAll_concatenates (h : t.PrintsAlike) (hnames : names ≠ []) (stdin : Bytes)
    (s : Session) :
    (∀ singles, List.Forall₂ (fun name single =>
        t.runAll [name] stdin { store := s.store } = .ok single) names singles →
      ∃ r, t.runAll names stdin s = .ok r
        ∧ r.session.stdout = s.stdout ++ singles.flatMap (·.session.stdout)
        ∧ r.unformatted = (singles.map (·.unformatted)).sum
        ∧ (r.failure.isSome ↔ ∃ single ∈ singles, single.failure.isSome)
        ∧ (∀ f, r.failure = some f → f = .several (singles.flatMap Result.failures))
        ∧ r.session.store = s.store)
    ∧ ∀ before name after singles broken, names = before ++ name :: after →
      List.Forall₂ (fun name single =>
        t.runAll [name] stdin { store := s.store } = .ok single) before singles →
      t.runAll [name] stdin { store := s.store } = .error broken →
      ∃ s', t.runAll names stdin s = .error ⟨broken.reason, s'⟩
        ∧ s'.stdout =
          s.stdout ++ singles.flatMap (·.session.stdout) ++ broken.session.stdout
        ∧ s'.store = s.store := by
  rw [runAll_eq hnames]
  constructor
  · intro singles hsingles
    obtain ⟨s', hrun, hstore, hstdout⟩ := foldlM_singles (r := { session := s }) h hsingles rfl
    rw [hrun]
    refine ⟨_, rfl, hstdout, Nat.zero_add _, ?_, ?_, hstore⟩
    · rw [← isSome_joined_singles hsingles, Report.result, List.nil_append]
    · intro f hf
      simp only [Report.result, List.nil_append, joined] at hf
      split at hf
      · cases hf
      · exact (Option.some.inj hf).symm
  · intro before name after singles broken hsplit hsingles hbroken
    -- the files in front of the one that does not come to its end run as alone
    obtain ⟨s₁, hrun, hstore₁, hstdout₁⟩ :=
      foldlM_singles (r := { session := s }) h hsingles rfl
    subst hsplit
    obtain ⟨s', hadd, hstdout, hstore⟩ := addFile_halted
      (r := ⟨_, [] ++ singles.flatMap Result.failures, s₁⟩) h (hstore₁ ▸ hbroken)
    refine ⟨s', ?_, hstdout.trans (by rw [hstdout₁]), hstore.trans hstore₁⟩
    rw [List.foldlM_append, hrun]
    simp only [bind, Except.bind, List.foldlM_cons]
    rw [hadd]
    rfl

/-- A session in memory with one file. -/
def oneFile : Session :=
  { store := { medium := .memory, files := [(utf8 "a.js", utf8 "a")] } }

theorem exists_eq_ok {ε α : Type} {x : Except ε α} (h : x.isOk = true) : ∃ a, x = .ok a := by
  cases x with
  | ok a => exact ⟨a, rfl⟩
  | error e => cases h

theorem runAll_concatenates_missing :
    ∃ present missing whole,
      ({} : Task).runAll [utf8 "a.js"] [] { store := oneFile.store } = .ok present
      ∧ ({} : Task).runAll [utf8 "b.js"] [] { store := oneFile.store } = .ok missing
      ∧ ({} : Task).runAll [utf8 "a.js", utf8 "b.js"] [] oneFile = .ok whole
      ∧ whole.session.stdout =
        oneFile.stdout ++ [present, missing].flatMap (·.session.stdout)
      ∧ (whole.failure.isSome ↔ ∃ single ∈ [present, missing], single.failure.isSome)
      ∧ whole.session.store = oneFile.store := by
  have hpresent : (({} : Task).runAll [utf8 "a.js"] [] { store := oneFile.store }).isOk = true := by
    decide +kernel
  have hmissing : (({} : Task).runAll [utf8 "b.js"] [] { store := oneFile.store }).isOk = true := by
    decide +kernel
  obtain ⟨present, hpresent⟩ := exists_eq_ok hpresent
  obtain ⟨missing, hmissing⟩ := exists_eq_ok hmissing
  obtain ⟨whole, hwhole, hstdout, -, hfailed, -, hstore⟩ :=
    (runAll_concatenates (t := {}) ⟨rfl, rfl, rfl, fun _ _ => rfl⟩
      (List.cons_ne_nil (utf8 "a.js") [utf8 "b.js"]) [] oneFile).1
      [present, missing] (.cons hpresent (.cons hmissing .nil))
  exact ⟨present, missing, whole, hpresent, hmissing, hwhole, hstdout, hfailed, hstore⟩

/-- A task with an indentation that is too long to be written. -/
def unwritableIndent : Task := { config := { indentSize := 9223372036854775807 } }

/-- A task that looks up a place in sources so far down that their maps are never finished. -/
def unreachableLine : Task :=
  { config := { originalStartLine := 4611686018427387905 }, lookup := utf8 "1:0" }

/-- A task that prints where there is room for two bytes in all. -/
def littleRoom : Task := { outlet := .roomFor 2 }

/-- Why the work on files does not come to its end, or else whether any of them has failed. -/
def endingOf (t : Task) (names : List Bytes) : Except Halt Bool :=
  ((t.runAll names [] oneFile).mapError (·.reason)).map (·.failure.isSome)

/-- **Inputs can depend on each other.** A file that breaks off, or that the work goes on with for
ever, hides the failure of the file behind it. The configurations of both tasks are valid. Where
there is little room, a file can leave too little of it for the next one. -/
theorem runAll_brokenOff :
    (unwritableIndent.config.fault? = none
      ∧ unwritableIndent.endingOf [utf8 "b.js"] = .ok true
      ∧ unwritableIndent.endingOf [utf8 "a.js", utf8 "b.js"] = .error .crash)
    ∧ (unreachableLine.config.fault? = none
      ∧ unreachableLine.endingOf [utf8 "b.js"] = .ok true
      ∧ unreachableLine.endingOf [utf8 "a.js", utf8 "b.js"] = .error .endless)
    ∧ (littleRoom.endingOf [utf8 "a.js"] = .ok false
      ∧ littleRoom.endingOf [utf8 "a.js", utf8 "a.js"] = .ok true) := by
  decide +kernel

end Task

end ScriptTidy
