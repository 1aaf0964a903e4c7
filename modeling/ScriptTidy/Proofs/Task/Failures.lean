import ScriptTidy.Proofs.SourceMap.Words
import ScriptTidy.Proofs.Task.Attempt

/-!
# What a run that failed leaves behind

A run takes nothing back. As long as it has nothing to deliver, a failure leaves everything as it
was. A delivery writes the map, then the code, and then it prints; what it has done before it
fails stays.

* `Delivers` : the runs that come to a delivery.
* `DeliveryFails` : the ways in which a delivery fails, with what each of them leaves behind.
* `DeliveryFails.unchanged` : with a single destination that is nothing.
* `run_failed` : a run that failed has left nothing behind, or else its delivery failed.
* `run_endless` : a run goes on for ever over a map that is never written.
-/

namespace ScriptTidy

/-- A closing that does not go on for ever, and prints nothing if it fails. -/
structure Closing.Tame (c : Closing) : Prop where
  silent : ∀ {outlet : Outlet} {before outcome f}, (c.comesTo outlet before).2 = .ok outcome →
    outcome.failure = some f → (c.comesTo outlet before).1 = before
  ends : ∀ {outlet : Outlet} {before}, (c.comesTo outlet before).2 ≠ .error .endless

theorem Closing.tame_silent {ending : Except Halt Outcome} (h : ending ≠ .error .endless) :
    (Closing.silent ending).Tame where
  silent _ _ := rfl
  ends := h

/-- Texts are printed for an input with which nothing is wrong. -/
theorem Closing.tame_telling (texts : List Bytes) (accepted : Bool) :
    (Closing.telling texts (.ok ⟨accepted, none⟩)).Tame where
  silent hending hf := by simp [← Except.ok.inj hending] at hf
  ends h := by cases h

/-- What went wrong, if work has come to its end. -/
def Aftermath.failure? (a : Aftermath) : Option Failure :=
  a.ending.toOption.bind (·.failure)

namespace Task

variable {t : Task} {name source : Bytes} {map : SourceMap} {p : Product} {s s' : Session}
  {outcome : Outcome} {f : Failure} {before code printed : Bytes}

/-- Whether a run comes to deliver a product, with its source map. -/
structure Delivers (t : Task) (name source : Bytes) (map : SourceMap) (p : Product) : Prop where
  unlisted : t.tokens = false
  unchecked : t.check = false
  formatted : ∃ o, t.config.options? = some o
    ∧ (t.produce (optionsFor o name) name source).1 = .ok p
    ∧ map = t.sourceMap (optionsFor o name) source p

/-- The ways in which a delivery fails with `f`, and what they leave of the session `s`. -/
inductive DeliveryFails (t : Task) (map : SourceMap) (p : Product) (f : Failure)
    (s s' : Session) : Prop
  /-- The store refuses a file; the files before it are written. -/
  | refused {before path content after message}
    (hfiles : t.files map p = before ++ (path, content) :: after)
    (hbefore : s.store.writeAll before = (s'.store, none))
    (hrefused : s'.store.write path content = .error message)
    (hfailure : f = .traced (.plain message))
    (hstdout : s'.stdout = s.stdout)
  /-- The outlet refuses the rest of the code. -/
  | printing {count}
    (hprinted : t.out = [] ∧ t.lookup = [])
    (hplain : t.highlighter = none)
    (hrefused : t.outlet s.stdout p.code = some (count, f))
    (hfiles : s.store.writeAll (t.files map p) = (s'.store, none))
    (hstdout : s'.stdout = s.stdout ++ p.code.take count)
  /-- What highlights the printed code fails; what it has written until then is printed. -/
  | highlighting {highlight fault}
    (hprinted : t.out = [] ∧ t.lookup = [])
    (hhighlighter : t.highlighter = some highlight)
    (hfault : (highlight t.outlet s.stdout p.code).2 = some fault)
    (hfailure : f = .within (utf8 "highlighting output") fault)
    (hfiles : s.store.writeAll (t.files map p) = (s'.store, none))
    (hstdout : s'.stdout = s.stdout ++ (highlight t.outlet s.stdout p.code).1)
  /-- There is no origin of the place that is looked up. -/
  | lookup
    (hasked : t.lookup ≠ [])
    (hanswer : t.lookupLine map = .ok (.error f))
    (hfiles : s.store.writeAll (t.files map p) = (s'.store, none))
    (hstdout : s'.stdout = s.stdout)

/-! ## Runs without a delivery -/

theorem tame_listing : (t.listing name source).Tame := by
  unfold listing
  cases tokenize source with
  | error e => exact Closing.tame_silent (by simp)
  | ok tokens => exact Closing.tame_telling _ true

theorem tame_comparison : (t.comparison name source p).Tame := by
  unfold comparison
  dsimp only
  split
  · exact Closing.tame_silent (by simp)
  · exact Closing.tame_telling _ false

/-- A run comes to a delivery, or it writes no file and is tame. -/
theorem attempt_cases (t : Task) (name source : Bytes) :
    (∃ c : Closing, t.attempt name source = ⟨[], c⟩ ∧ c.Tame)
    ∨ ∃ map p, Delivers t name source map p ∧ t.attempt name source = t.delivery map p := by
  unfold attempt
  cases htokens : t.tokens with
  | true => exact .inl ⟨_, rfl, tame_listing⟩
  | false =>
    cases ho : t.config.options? with
    | none => exact .inl ⟨_, rfl, Closing.tame_silent (by simp)⟩
    | some o =>
      simp only [Bool.false_eq_true, if_false, formatting]
      cases hp : (t.produce (optionsFor o name) name source).1 with
      | error f => exact .inl ⟨_, rfl, Closing.tame_silent (by simp)⟩
      | ok p =>
        cases hcheck : t.check with
        | true => exact .inl ⟨_, rfl, tame_comparison⟩
        | false => exact .inr ⟨_, p, ⟨htokens, hcheck, o, ho, hp, rfl⟩, rfl⟩

/-! ## Deliveries -/

/-- An answer that is a failure is not printed. -/
theorem answering_failed
    (h : (t.answering map).comesTo t.outlet before = (printed, .ok outcome))
    (hf : outcome.failure = some f) :
    t.lookupLine map = .ok (.error f) ∧ printed = before := by
  unfold answering at h
  cases hanswer : t.lookupLine map with
  | error reason =>
    rw [hanswer] at h
    cases (Prod.mk.inj h).2
  | ok answer =>
    rw [hanswer] at h
    obtain ⟨hprinted, hending⟩ := Prod.mk.inj h
    cases answer with
    | ok line => simp [← Except.ok.inj hending] at hf
    | error g =>
      rw [← Except.ok.inj hending] at hf
      exact ⟨by rw [Option.some.inj hf], hprinted.symm⟩

/-- The failure of printing code. -/
theorem failure_shown (failure : Option Failure) : (shown failure).failure = failure := by
  cases failure <;> rfl

/-- The files of a delivery are all written when its end fails. -/
theorem deliveryFails_closing (hfiles : s.store.writeAll (t.files map p) = (s'.store, none))
    (h : (t.closing map p).comesTo t.outlet s.stdout = (s'.stdout, .ok outcome))
    (hf : outcome.failure = some f) : DeliveryFails t map p f s s' := by
  unfold closing at h
  by_cases hlookup : t.lookup = []
  · rw [if_neg (by simpa using hlookup)] at h
    by_cases hout : t.out = []
    · -- the code is printed, and the way in which that fails is the way the closing fails
      rw [if_pos (by simpa using hout), showing] at h
      cases hhighlighter : t.highlighter with
      | none =>
        rw [hhighlighter] at h
        obtain ⟨hstdout, hending⟩ := Prod.mk.inj h
        rw [← Except.ok.inj hending, failure_shown, Option.map_eq_some_iff] at hf
        obtain ⟨⟨count, g⟩, hrefused, rfl⟩ := hf
        refine .printing ⟨hout, hlookup⟩ hhighlighter hrefused hfiles ?_
        rw [← hstdout, Outlet.taken, hrefused]
      | some highlight =>
        rw [hhighlighter] at h
        obtain ⟨hstdout, hending⟩ := Prod.mk.inj h
        rw [← Except.ok.inj hending, failure_shown, Option.map_eq_some_iff] at hf
        obtain ⟨fault, hfault, rfl⟩ := hf
        exact .highlighting ⟨hout, hlookup⟩ hhighlighter hfault rfl hfiles hstdout.symm
    · rw [if_neg (by simpa using hout)] at h
      simp [← Except.ok.inj (Prod.mk.inj h).2] at hf
  · rw [if_pos (by simpa using hlookup)] at h
    obtain ⟨hanswer, hstdout⟩ := answering_failed h hf
    exact .lookup hlookup hanswer hfiles hstdout

theorem deliveryFails_of_aftermath
    (h : t.aftermathIn ⟨t.files map p, t.closing map p⟩ s = ⟨s'.store, s'.stdout, .ok outcome⟩)
    (hf : outcome.failure = some f) : DeliveryFails t map p f s s' := by
  obtain ⟨hwritten, hclosing⟩ | ⟨message, hwritten, hstdout, hending⟩ := Attempt.aftermath_cases h
  · exact deliveryFails_closing hwritten hclosing hf
  · obtain ⟨before, path, content, after, hfiles, hbefore, hrefused⟩ :=
      FileStore.writeAll_refused hwritten
    rw [Except.ok.inj hending] at hf
    exact .refused hfiles hbefore hrefused (Option.some.inj hf).symm hstdout

/-- **A delivery with a single destination** leaves nothing behind when it fails, if the outlet
takes texts as wholes. -/
theorem DeliveryFails.unchanged (h : DeliveryFails t map p f s s') (hplain : t.highlighter = none)
    (hwhole : ∀ count g, t.outlet s.stdout p.code = some (count, g) → count = 0)
    (hmap : t.mapFile = []) (hsingle : t.out = [] ∨ t.lookup = []) :
    s'.store = s.store ∧ s'.stdout = s.stdout := by
  cases h with
  | @refused before path content after message hfiles hbefore hrefused hfailure hstdout =>
    have hone : (t.files map p).length ≤ 1 := by
      by_cases hout : t.out = [] <;> simp [files, fileNamed, hmap, hout]
    have hnone : before = [] := by
      simp only [hfiles, List.length_append, List.length_cons] at hone
      exact List.eq_nil_of_length_eq_zero (by omega)
    rw [hnone] at hbefore
    exact ⟨(Prod.mk.inj hbefore).1.symm, hstdout⟩
  | printing hprinted _ hrefused hfiles hstdout =>
    have hnone : t.files map p = [] := by simp [files, fileNamed, hmap, hprinted.1]
    rw [hnone] at hfiles
    rw [hwhole _ _ hrefused, List.take_zero, List.append_nil] at hstdout
    exact ⟨(Prod.mk.inj hfiles).1.symm, hstdout⟩
  | highlighting hprinted hhighlighter => cases hplain.symm.trans hhighlighter
  | lookup hasked hanswer hfiles hstdout =>
    have hnone : t.files map p = [] := by
      simp [files, fileNamed, hmap, hsingle.resolve_right hasked]
    rw [hnone] at hfiles
    exact ⟨(Prod.mk.inj hfiles).1.symm, hstdout⟩

/-- A map that is never written is one whose written form is asked for in vain. -/
theorem neverWritten_of_lookupLine (h : t.lookupLine map = .error .endless) :
    map.NeverWritten := by
  rw [← SourceMap.not_ends_iff]
  unfold lookupLine SourceMap.render? at h
  cases hends : map.ends with
  | false => rfl
  | true =>
    rw [if_pos hends] at h
    split at h
    · cases h
    · dsimp only at h
      split at h <;> cases h

/-- Only the answer to what is looked up can take for ever. -/
theorem closing_endless
    (h : (t.closing map p).comesTo t.outlet before = (printed, .error .endless)) :
    t.lookup ≠ [] ∧ map.NeverWritten ∧ printed = before := by
  unfold closing at h
  by_cases hlookup : t.lookup = []
  · rw [if_neg (by simpa using hlookup)] at h
    split at h
    · unfold showing at h
      split at h <;> cases (Prod.mk.inj h).2
    · cases (Prod.mk.inj h).2
  · rw [if_pos (by simpa using hlookup), answering] at h
    cases hanswer : t.lookupLine map with
    | ok answer =>
      rw [hanswer] at h
      cases answer <;> cases (Prod.mk.inj h).2
    | error reason =>
      rw [hanswer] at h
      obtain ⟨hprinted, hreason⟩ := Prod.mk.inj h
      rw [Except.error.inj hreason] at hanswer
      exact ⟨hlookup, neverWritten_of_lookupLine hanswer, hprinted.symm⟩

/-! ## Failed runs -/

/-- **A run that failed has left nothing behind, or else its delivery failed**, and what the
delivery had done until then has stayed. -/
theorem run_failed (h : t.run name source s = .ok (outcome, s'))
    (hf : outcome.failure = some f) :
    (s'.store = s.store ∧ s'.stdout = s.stdout)
    ∨ ∃ map p, Delivers t name source map p ∧ t.MapWritten map
      ∧ DeliveryFails t map p f s s' := by
  have hafter : t.aftermathIn (t.attempt name source) s =
      ⟨s'.store, s'.stdout, .ok outcome⟩ := by
    rw [← run_aftermath, h]
    rfl
  obtain ⟨c, hattempt, htame⟩ | ⟨map, p, hdelivers, hattempt⟩ := attempt_cases t name source
  · rw [hattempt, aftermathIn, Attempt.aftermath_nil, Aftermath.mk.injEq] at hafter
    obtain ⟨hstore, hstdout, hending⟩ := hafter
    exact .inl ⟨hstore.symm, hstdout.symm.trans (htame.silent hending hf)⟩
  · rw [hattempt, delivery] at hafter
    by_cases hwritten : t.MapWritten map
    · rw [if_pos hwritten] at hafter
      exact .inr ⟨map, p, hdelivers, hwritten, deliveryFails_of_aftermath hafter hf⟩
    · rw [if_neg hwritten] at hafter
      cases congrArg Aftermath.ending hafter

/-- **A run goes on for ever over a map that is never written.** If the map is to be written to a
file, nothing is left behind. If a place is looked up in it, the files of the delivery are. -/
theorem run_endless (h : t.run name source s = .error ⟨.endless, s'⟩) :
    ∃ map p, Delivers t name source map p ∧ map.NeverWritten ∧ s'.stdout = s.stdout
      ∧ (t.mapFile ≠ [] ∧ s'.store = s.store
        ∨ t.mapFile = [] ∧ t.lookup ≠ []
          ∧ s.store.writeAll (t.files map p) = (s'.store, none)) := by
  have hafter : t.aftermathIn (t.attempt name source) s =
      ⟨s'.store, s'.stdout, .error .endless⟩ := by
    rw [← run_aftermath, h]
    rfl
  obtain ⟨hfiles, hclosing⟩ | ⟨_, _, _, hending⟩ := Attempt.aftermath_cases hafter
  case inr => cases hending
  obtain ⟨c, hattempt, htame⟩ | ⟨map, p, hdelivers, hattempt⟩ := attempt_cases t name source
  · rw [hattempt] at hclosing
    exact absurd (congrArg Prod.snd hclosing) htame.ends
  · rw [hattempt, delivery] at hfiles hclosing
    by_cases hwritten : t.MapWritten map
    · rw [if_pos hwritten] at hfiles hclosing
      obtain ⟨hlookup, hnever, hstdout⟩ := closing_endless hclosing
      have hmap : t.mapFile = [] := by
        by_contra hmap
        exact Bool.noConfusion ((hwritten hmap).symm.trans (SourceMap.not_ends_iff.mpr hnever))
      exact ⟨map, p, hdelivers, hnever, hstdout, .inr ⟨hmap, hlookup, hfiles⟩⟩
    · rw [if_neg hwritten] at hfiles hclosing
      obtain ⟨hmap, hends⟩ := not_forall.mp hwritten
      have hnever : map.NeverWritten :=
        SourceMap.not_ends_iff.mp (Bool.eq_false_iff.mpr hends)
      exact ⟨map, p, hdelivers, hnever, (Prod.mk.inj hclosing).1.symm,
        .inl ⟨hmap, (Prod.mk.inj hfiles).1.symm⟩⟩

/-- A task that writes code to a file and looks up a place that lies behind it. -/
def lookupBehind : Task := { out := utf8 "out.js", lookup := utf8 "9:0" }

/-- A task that writes code and its map to files. -/
def codeAndMap : Task := { out := utf8 "out.js", mapFile := utf8 "out.js.map" }

/-- A task that writes a map to a file and prints code, for which there is little room. -/
def mapBesideFull : Task := { mapFile := utf8 "out.js.map", outlet := .roomFor 1 }

/-- A session in memory, in which a file with this name is refused. -/
def refusing (name : Bytes) : Session :=
  { store := {
      medium := .memory
      refusal := fun file => if file.1 = name then some (utf8 "read-only") else none } }

/-- A failure is that of a run which has come to its end. -/
theorem eq_ok_of_failure {progress : Progress Outcome} (h : progress.aftermath.failure? = some f) :
    ∃ outcome s, progress = .ok (outcome, s) ∧ outcome.failure = some f := by
  cases progress with
  | error halted => cases h
  | ok ended => exact ⟨ended.1, ended.2, rfl, h⟩

theorem run_failed_lookup :
    ∃ outcome s' f, lookupBehind.run [] (utf8 "a") (refusing []) = .ok (outcome, s')
      ∧ outcome.failure = some f
      ∧ ((s'.store = (refusing []).store ∧ s'.stdout = (refusing []).stdout)
        ∨ ∃ map p, Delivers lookupBehind [] (utf8 "a") map p ∧ lookupBehind.MapWritten map
          ∧ DeliveryFails lookupBehind map p f (refusing []) s') := by
  obtain ⟨f, hf⟩ : ∃ f,
      (lookupBehind.run [] (utf8 "a") (refusing [])).aftermath.failure? = some f :=
    Option.isSome_iff_exists.mp (by decide +kernel)
  obtain ⟨outcome, s', h, hf⟩ := eq_ok_of_failure hf
  exact ⟨outcome, s', f, h, hf, run_failed h hf⟩

/-- **A failed run can leave files behind.** A place behind the end of the code has no origin, and
that is found out when the code is written. A refused file of code leaves the map behind, and so
does code for which there is no room; what there is room for is printed. -/
theorem run_failed_leavesFiles :
    let behind := (lookupBehind.run [] (utf8 "a") (refusing [])).aftermath
    let refused := (codeAndMap.run [] (utf8 "a") (refusing (utf8 "out.js"))).aftermath
    let full := (mapBesideFull.run [] (utf8 "a") (refusing [])).aftermath
    (behind.failure?.map Failure.message = some (utf8 "no mapping for 9:0")
      ∧ behind.store.files = [(utf8 "out.js", utf8 "a\n")])
    ∧ (refused.failure?.map Failure.message = some (utf8 "read-only")
      ∧ refused.store.files.map (·.1) = [utf8 "out.js.map"])
    ∧ (full.failure?.map Failure.message = some (utf8 "no space left on device")
      ∧ full.store.files.map (·.1) = [utf8 "out.js.map"] ∧ full.stdout = utf8 "a") := by
  decide +kernel

end Task

end ScriptTidy
