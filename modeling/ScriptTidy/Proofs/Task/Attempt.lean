import ScriptTidy.Task.Basic

/-!
# What a run does, apart from the session it is done in

A run writes files, then it prints, then it ends; the name and the source alone say what. Two
things are left to where it is done. The store can refuse a file, and then the files behind it are
not written and nothing is printed; and the outlet can refuse a text or the rest of it, which counts
as a failure only where code is printed.

* `Task.attempt` : what a run sets out to do.
* `FileStore.writeAll` : files written one after the other, up to the first that is refused.
* `Closing.comesTo` : what is printed in the end, and how the run ends.
* `run_aftermath`, `runFile_aftermath` : what a run leaves behind is what becomes of its attempt.
-/

namespace ScriptTidy

/-! ## Sessions apart from their log -/

namespace Session

variable (s : Session)

@[simp] theorem store_print (outlet : Outlet) (text : Bytes) :
    (s.print outlet text).2.store = s.store := by
  unfold print
  split <;> rfl

@[simp] theorem store_tell (outlet : Outlet) (texts : List Bytes) :
    (s.tell outlet texts).store = s.store := by
  induction texts generalizing s with
  | nil => rfl
  | cons text texts ih => exact (ih _).trans (s.store_print outlet text)

@[simp] theorem store_record (p : Phase) : (s.record p).store = s.store := rfl
@[simp] theorem stdout_record (p : Phase) : (s.record p).stdout = s.stdout := rfl
@[simp] theorem store_note (text : Bytes) : (s.note text).store = s.store := rfl
@[simp] theorem stdout_note (text : Bytes) : (s.note text).stdout = s.stdout := rfl
@[simp] theorem store_count (events : List Metric) : (s.count events).store = s.store := rfl
@[simp] theorem stdout_count (events : List Metric) : (s.count events).stdout = s.stdout := rfl

@[simp] theorem store_flush : s.flush.store = s.store := by
  unfold flush
  split <;> rfl

@[simp] theorem stdout_flush : s.flush.stdout = s.stdout := by
  unfold flush
  split <;> rfl

end Session

/-! ## Files written one after the other -/

/-- Writes files in turn. The first that is refused is the last; why it is refused comes with the
store in which it is. -/
def FileStore.writeAll (s : FileStore) : List (Bytes × Bytes) → FileStore × Option Bytes
  | [] => (s, none)
  | (path, content) :: rest =>
    match s.write path content with
    | .ok s => s.writeAll rest
    | .error message => (s, some message)

/-- **A refused file has no effect**: the files before it are written, and nothing else is. -/
theorem FileStore.writeAll_refused {s s' : FileStore} {files : List (Bytes × Bytes)}
    {message : Bytes} (h : s.writeAll files = (s', some message)) :
    ∃ before path content after, files = before ++ (path, content) :: after
      ∧ s.writeAll before = (s', none) ∧ s'.write path content = .error message := by
  induction files generalizing s with
  | nil => simp [writeAll] at h
  | cons file files ih =>
    obtain ⟨path, content⟩ := file
    simp only [writeAll] at h
    cases hwrite : s.write path content with
    | error reason =>
      simp only [hwrite, Prod.mk.injEq, Option.some.injEq] at h
      obtain ⟨rfl, rfl⟩ := h
      exact ⟨[], path, content, files, rfl, rfl, hwrite⟩
    | ok t =>
      rw [hwrite] at h
      obtain ⟨before, path', content', after, rfl, hbefore, hrefused⟩ := ih h
      refine ⟨(path, content) :: before, path', content', after, rfl, ?_, hrefused⟩
      simp only [writeAll, hwrite, hbefore]

/-! ## Texts printed one after the other -/

/-- What an outlet takes of a text that is printed behind other texts. -/
def Outlet.taken (outlet : Outlet) (before text : Bytes) : Bytes :=
  match outlet before text with
  | none => text
  | some (count, _) => text.take count

/-- What is printed behind texts that are printed one after the other. -/
def Outlet.printed (outlet : Outlet) (before : Bytes) (texts : List Bytes) : Bytes :=
  texts.foldl (fun before text => before ++ Outlet.taken outlet before text) before

/-- An outlet with room for so many bytes. -/
def Outlet.roomFor (room : Nat) : Outlet := fun before text =>
  if before.length + text.length ≤ room then none
  else some (room - before.length, .plain (utf8 "no space left on device"))

theorem Session.print_eq (s : Session) (outlet : Outlet) (text : Bytes) : s.print outlet text =
    ((outlet s.stdout text).map (·.2),
      { s with stdout := s.stdout ++ Outlet.taken outlet s.stdout text }) := by
  unfold print Outlet.taken
  cases outlet s.stdout text <;> rfl

theorem Session.stdout_tell (s : Session) (outlet : Outlet) (texts : List Bytes) :
    (s.tell outlet texts).stdout = Outlet.printed outlet s.stdout texts := by
  induction texts generalizing s with
  | nil => rfl
  | cons text texts ih =>
    have hnext : (s.print outlet text).2.stdout =
        s.stdout ++ Outlet.taken outlet s.stdout text := by rw [s.print_eq]
    exact (ih _).trans (by rw [hnext]; rfl)

/-! ## Attempts -/

/-- What can be seen of work behind its end. -/
structure Aftermath where
  store : FileStore
  stdout : Bytes
  /-- What became of the input, or why the work did not come to its end. -/
  ending : Except Halt Outcome

/-- What can be seen behind the end of work on an input. -/
def Progress.aftermath : Progress Outcome → Aftermath
  | .ok (outcome, s) => ⟨s.store, s.stdout, .ok outcome⟩
  | .error ⟨reason, s⟩ => ⟨s.store, s.stdout, .error reason⟩

/-- How a run ends when its files are written. -/
inductive Closing
  /-- Texts are printed, whether or not they are taken. -/
  | telling (texts : List Bytes) (ending : Except Halt Outcome)
  /-- Code is printed. -/
  | showing (code : Bytes)
  /-- Code is printed by a highlighter. -/
  | highlighting (highlight : Highlighter) (code : Bytes)

/-- A closing that prints nothing. -/
def Closing.silent (ending : Except Halt Outcome) : Closing := .telling [] ending

/-- The outcome of printing code. -/
def shown (failure : Option Failure) : Outcome :=
  match failure with
  | some f => ⟨false, some f⟩
  | none => ⟨true, none⟩

/-- What a closing comes to behind what is printed: what is printed then, and the end. -/
def Closing.comesTo (outlet : Outlet) (before : Bytes) : Closing → Bytes × Except Halt Outcome
  | .telling texts ending => (Outlet.printed outlet before texts, ending)
  | .showing code =>
    (before ++ Outlet.taken outlet before code, .ok (shown ((outlet before code).map (·.2))))
  | .highlighting highlight code =>
    (before ++ (highlight outlet before code).1,
      .ok (shown ((highlight outlet before code).2.map (.within (utf8 "highlighting output")))))

/-- What a run sets out to do. -/
structure Attempt where
  /-- The files to write, with their contents. -/
  files : List (Bytes × Bytes) := []
  closing : Closing

namespace Attempt

/-- What an attempt comes to. -/
def aftermath (a : Attempt) (outlet : Outlet) (store : FileStore) (stdout : Bytes) : Aftermath :=
  match store.writeAll a.files with
  | (store, some message) => ⟨store, stdout, .ok ⟨false, some (.traced (.plain message))⟩⟩
  | (store, none) =>
    ⟨store, (a.closing.comesTo outlet stdout).1, (a.closing.comesTo outlet stdout).2⟩

theorem aftermath_nil (closing : Closing) (outlet : Outlet) (store : FileStore) (stdout : Bytes) :
    (⟨[], closing⟩ : Attempt).aftermath outlet store stdout =
      ⟨store, (closing.comesTo outlet stdout).1, (closing.comesTo outlet stdout).2⟩ := rfl

/-- An attempt that neither writes nor prints. -/
theorem aftermath_silent (ending : Except Halt Outcome) (outlet : Outlet) (store : FileStore)
    (stdout : Bytes) :
    (⟨[], .silent ending⟩ : Attempt).aftermath outlet store stdout = ⟨store, stdout, ending⟩ := rfl

theorem aftermath_cons (path content : Bytes) (files : List (Bytes × Bytes)) (closing : Closing)
    (outlet : Outlet) (store : FileStore) (stdout : Bytes) :
    (⟨(path, content) :: files, closing⟩ : Attempt).aftermath outlet store stdout =
      match store.write path content with
      | .ok store => (⟨files, closing⟩ : Attempt).aftermath outlet store stdout
      | .error message => ⟨store, stdout, .ok ⟨false, some (.traced (.plain message))⟩⟩ := by
  unfold aftermath
  simp only [FileStore.writeAll]
  cases store.write path content <;> rfl

/-- An attempt comes to its closing with all files written, or else it fails at a file. -/
theorem aftermath_cases {a : Attempt} {outlet : Outlet} {store store' : FileStore}
    {stdout stdout' : Bytes} {ending : Except Halt Outcome}
    (h : a.aftermath outlet store stdout = ⟨store', stdout', ending⟩) :
    store.writeAll a.files = (store', none)
        ∧ a.closing.comesTo outlet stdout = (stdout', ending)
      ∨ ∃ message, store.writeAll a.files = (store', some message) ∧ stdout' = stdout
        ∧ ending = .ok ⟨false, some (.traced (.plain message))⟩ := by
  unfold aftermath at h
  cases hwritten : store.writeAll a.files with
  | mk store₁ refusal =>
    rw [hwritten] at h
    cases refusal with
    | some message =>
      cases h
      exact .inr ⟨message, rfl, rfl, rfl⟩
    | none =>
      cases h
      exact .inl ⟨rfl, rfl⟩

end Attempt

namespace Task

variable (t : Task)

/-- Printing code. -/
def showing (code : Bytes) : Closing :=
  match t.highlighter with
  | none => .showing code
  | some highlight => .highlighting highlight code

/-- Looking up a place. -/
def answering (map : SourceMap) : Closing :=
  match t.lookupLine map with
  | .ok (.ok line) => .telling [line] (.ok ⟨true, none⟩)
  | .ok (.error f) => .silent (.ok ⟨true, some f⟩)
  | .error reason => .silent (.error reason)

/-- The end of a delivery. -/
def closing (map : SourceMap) (p : Product) : Closing :=
  if !t.lookup.isEmpty then t.answering map
  else if t.out.isEmpty then t.showing p.code
  else .silent (.ok ⟨true, none⟩)

/-- A file with a name that can be left empty to go without the file. -/
def fileNamed (path content : Bytes) : List (Bytes × Bytes) :=
  if path.isEmpty then [] else [(path, content)]

/-- The files of a delivery: the map comes before the code. -/
def files (map : SourceMap) (p : Product) : List (Bytes × Bytes) :=
  fileNamed t.mapFile map.render ++ fileNamed t.out p.code

/-- Whether the map comes to a file, if it is to: its text has to be finished. -/
def MapWritten (map : SourceMap) : Prop := t.mapFile ≠ [] → map.ends = true

instance (map : SourceMap) : Decidable (t.MapWritten map) :=
  inferInstanceAs (Decidable (_ → _))

/-- A delivery. Nothing comes of it if the map that is written first is never finished. -/
def delivery (map : SourceMap) (p : Product) : Attempt :=
  if t.MapWritten map then { files := t.files map p, closing := t.closing map p }
  else { closing := .silent (.error .endless) }

/-- Listing the tokens of an input. -/
def listing (name source : Bytes) : Closing :=
  match tokenize source with
  | .ok tokens => .telling (tokens.map t.tools.dump) (.ok ⟨true, none⟩)
  | .error e =>
    .silent (.ok ⟨true, some (.within (utf8 "tokenizing " ++ inputName name)
      (.positioned e.toPositioned))⟩)

/-- Comparing an input with its formatted form. -/
def comparison (name source : Bytes) (p : Product) : Closing :=
  let diff := lineDiffWith t.tools.edits source p.code
  if diff.isEmpty then .silent (.ok ⟨true, none⟩)
  else .telling [utf8 "--- " ++ inputName name ++ [0x0A] ++ diff] (.ok ⟨false, none⟩)

/-- What formatting an input sets out to do, with the options for it. -/
def formatting (o : Options) (name source : Bytes) : Attempt :=
  match (t.produce o name source).1 with
  | .error f => { closing := .silent (.ok ⟨false, some f⟩) }
  | .ok p =>
    if t.check then { closing := t.comparison name source p }
    else t.delivery (t.sourceMap o source p) p

/-- What a run sets out to do. -/
def attempt (name source : Bytes) : Attempt :=
  if t.tokens then { closing := t.listing name source }
  else match t.config.options? with
    | some o => t.formatting (optionsFor o name) name source
    | none => { closing := .silent (.error .crash) }

/-- What the work on a file sets out to do. -/
def attemptFile (store : FileStore) (name : Bytes) : Attempt :=
  match store.read name with
  | .error fault => { closing := .silent (.ok ⟨false, some (.traced (.plain fault.message))⟩) }
  | .ok source => t.attempt name source

/-! ## What a run leaves behind -/

variable {t} {name source : Bytes} {map : SourceMap} {p : Product} {s : Session}

/-- What an attempt comes to in a session. -/
def aftermathIn (t : Task) (a : Attempt) (s : Session) : Aftermath :=
  a.aftermath t.outlet s.store s.stdout

theorem listTokens_aftermath :
    Progress.aftermath (.ok (t.listTokens name source s)) =
      t.aftermathIn { closing := t.listing name source } s := by
  unfold listTokens listing
  cases tokenize source with
  | error e => rfl
  | ok tokens => simp [Progress.aftermath, aftermathIn, Attempt.aftermath_nil, Closing.comesTo,
      Session.stdout_tell]

theorem compare_aftermath :
    Progress.aftermath (.ok (t.compare name source p s)) =
      t.aftermathIn { closing := t.comparison name source p } s := by
  unfold compare comparison
  dsimp only
  split
  · rfl
  · simp [Progress.aftermath, aftermathIn, Attempt.aftermath_nil, Closing.comesTo,
      Session.stdout_tell]

theorem answerLookup_aftermath (h : t.lookup ≠ []) :
    (t.answerLookup map s).aftermath = t.aftermathIn { closing := t.answering map } s := by
  unfold answerLookup answering
  rw [if_neg (by simpa using h)]
  cases t.lookupLine map with
  | error reason => rfl
  | ok answer =>
    cases answer with
    | error f => rfl
    | ok line => simp [Progress.aftermath, aftermathIn, Attempt.aftermath_nil, Closing.comesTo,
        Session.stdout_tell]

/-- What a delivery does behind the map. -/
def deliverCode (t : Task) (map : SourceMap) (p : Product) (s : Session) : Progress Outcome :=
  match t.writeCode p.code s with
  | (some f, s) => .ok (⟨false, some f⟩, s)
  | (none, s) => t.answerLookup map (s.record .write)

/-- Printing code is the last that is done. -/
theorem deliverCode_shown (hout : t.out = []) (hlookup : t.lookup = []) :
    (t.deliverCode map p s).aftermath = t.aftermathIn { closing := t.showing p.code } s := by
  have hcode : t.writeCode p.code s = t.showCode p.code s := by simp [writeCode, hout, hlookup]
  have hanswer (s : Session) : t.answerLookup map s = .ok (⟨true, none⟩, s) := by
    simp [answerLookup, hlookup]
  rw [deliverCode, hcode]
  unfold showCode showing aftermathIn
  cases t.highlighter with
  | none =>
    dsimp only
    rw [s.print_eq, Attempt.aftermath_nil]
    cases hrefused : t.outlet s.stdout p.code <;>
      simp [hanswer, hrefused, Progress.aftermath, Closing.comesTo, shown]
  | some highlight =>
    dsimp only
    rw [Attempt.aftermath_nil]
    cases hfault : (highlight t.outlet s.stdout p.code).2 <;>
      simp [hanswer, hfault, Progress.aftermath, Closing.comesTo, shown]

/-- Code without a file is printed, or a place in it is looked up. -/
theorem deliverCode_printed (hout : t.out = []) :
    (t.deliverCode map p s).aftermath = t.aftermathIn { closing := t.closing map p } s := by
  by_cases hlookup : t.lookup = []
  · have hclosing : t.closing map p = t.showing p.code := by simp [closing, hout, hlookup]
    rw [hclosing]
    exact deliverCode_shown hout hlookup
  · -- the answer is printed in place of the code
    have hcode : t.writeCode p.code s = (none, s) := by simp [writeCode, hout, hlookup]
    have hclosing : t.closing map p = t.answering map := by simp [closing, hlookup]
    rw [deliverCode, hcode, hclosing]
    exact answerLookup_aftermath hlookup

/-- Behind a file of code there is only a place to look up. -/
theorem deliverCode_written (hout : t.out ≠ []) :
    (t.deliverCode map p s).aftermath =
      t.aftermathIn { files := [(t.out, p.code)], closing := t.closing map p } s := by
  rw [aftermathIn, Attempt.aftermath_cons, deliverCode, writeCode, if_pos (by simpa using hout)]
  unfold Session.writeFile
  cases s.store.write t.out p.code with
  | error message => rfl
  | ok store =>
    by_cases hlookup : t.lookup = []
    · have hclosing : t.closing map p = .silent (.ok ⟨true, none⟩) := by
        simp [closing, hlookup, hout]
      rw [hclosing]
      simp [answerLookup, hlookup, Attempt.aftermath_silent, Progress.aftermath]
    · have hclosing : t.closing map p = t.answering map := by simp [closing, hlookup]
      rw [hclosing]
      exact answerLookup_aftermath hlookup

theorem deliverCode_aftermath :
    (t.deliverCode map p s).aftermath =
      t.aftermathIn { files := fileNamed t.out p.code, closing := t.closing map p } s := by
  by_cases hout : t.out = []
  · rw [deliverCode_printed hout, fileNamed, if_pos (by simpa using hout)]
  · rw [deliverCode_written hout, fileNamed, if_neg (by simpa using hout)]

theorem deliver_eq : t.deliver map p s = match t.writeMap map s with
    | .error halted => .error halted
    | .ok (some f, s) => .ok (⟨false, some f⟩, s)
    | .ok (none, s) => t.deliverCode map p s := rfl

theorem deliver_aftermath :
    (t.deliver map p s).aftermath = t.aftermathIn (t.delivery map p) s := by
  rw [deliver_eq, writeMap, delivery]
  by_cases hmap : t.mapFile = []
  · have hwritten : t.MapWritten map := fun h => absurd hmap h
    have hfiles : t.files map p = fileNamed t.out p.code := by simp [files, fileNamed, hmap]
    rw [if_pos hwritten, if_pos (by simpa using hmap), hfiles]
    exact deliverCode_aftermath
  · have hfiles : t.files map p = (t.mapFile, map.render) :: fileNamed t.out p.code := by
      simp [files, fileNamed, hmap]
    rw [if_neg (by simpa using hmap), SourceMap.render?]
    by_cases hends : map.ends = true
    · have hwritten : t.MapWritten map := fun _ => hends
      rw [if_pos hwritten, if_pos hends, hfiles, aftermathIn, Attempt.aftermath_cons]
      unfold Session.writeFile
      rw [Session.store_record]
      dsimp only
      cases s.store.write t.mapFile map.render with
      | error message => rfl
      | ok store => exact deliverCode_aftermath
    · -- the map is never finished, so that nothing is done
      have hwritten : ¬ t.MapWritten map := fun h => hends (h hmap)
      rw [if_neg hwritten, if_neg hends]
      rfl

theorem formatInput_aftermath (o : Options) :
    (t.formatInput o name source s).aftermath =
      t.aftermathIn (t.formatting (optionsFor o name) name source) s := by
  unfold formatInput formatting
  dsimp only
  cases (t.produce (optionsFor o name) name source).1 with
  | error f => rfl
  | ok p =>
    dsimp only
    cases t.check with
    | true => cases p.note <;> exact compare_aftermath
    | false => cases p.note <;> exact deliver_aftermath

/-- **What a run leaves behind** is what becomes of its attempt. -/
theorem run_aftermath :
    (t.run name source s).aftermath = t.aftermathIn (t.attempt name source) s := by
  have hprocess : (t.process name source s).aftermath =
      t.aftermathIn (t.attempt name source) s := by
    unfold process attempt
    cases t.tokens with
    | true => exact listTokens_aftermath
    | false =>
      cases t.config.options? with
      | none => rfl
      | some o => exact formatInput_aftermath o
  rw [← hprocess, run]
  cases t.process name source s with
  | ok ended => simp [Progress.aftermath]
  | error halted =>
    obtain ⟨reason, s'⟩ := halted
    cases reason <;> simp [Progress.aftermath]

/-- What the work on a file leaves behind is what becomes of its attempt. -/
theorem runFile_aftermath :
    (t.runFile name s).aftermath = t.aftermathIn (t.attemptFile s.store name) s := by
  unfold runFile attemptFile
  cases s.store.read name with
  | error fault => rfl
  | ok source => exact run_aftermath

end Task

end ScriptTidy
