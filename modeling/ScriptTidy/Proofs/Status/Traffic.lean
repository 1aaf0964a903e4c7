import Mathlib.Algebra.Ring.Nat
import Mathlib.Logic.Function.Iterate
import ScriptTidy.Proofs.Status.Breakdown

/-!
# Hits at the same time

However the steps of hits are mixed, none of them is lost. What carries the proof is what a hit
knows between two of its steps: where its category stands, once it has found it, and that it stands
nowhere before the index it has come to, as long as it has the lock for itself.

* `Moves` : what one step of a hit can do.
* `Sound` : what holds between two steps, whichever hits they belong to.
* `Sound.step`, `sound_run` : a step keeps it, and so does a schedule.
* `exists_isOver` : hits can always be brought to an end.
* `run_alone` : a hit that nothing comes between is `Breakdown.hit`.
* `run_counts` : when all hits are over, each of them is counted once.
-/

namespace ScriptTidy.Status

variable {name : Bytes} {g g' : Guarded} {stage stage' : Stage}

namespace Stage

/-- Whether a hit holds the lock in this way. -/
def holds (hold : Hold) : Stage → Bool
  | searching h _ | found h _ | counted h | totalled h => h == hold
  | waiting _ | finished => false

/-- Whether a hit is in the count of its category. -/
def inCount : Stage → Bool
  | counted _ | totalled _ | finished => true
  | _ => false

/-- Whether a hit is in the total. -/
def inTotal : Stage → Bool
  | totalled _ | finished => true
  | _ => false

/-- What a hit knows about the categories. Without the lock for itself it learns nothing from
categories that are not its own. -/
def Knows (name : Bytes) (categories : List Bytes) : Stage → Prop
  | found _ i => categories[i]? = some name
  | searching .exclusive i => name ∉ categories.take i
  | _ => True

end Stage

/-! ## One step of a hit -/

/-- The steps of a hit. -/
inductive Moves (name : Bytes) (g : Guarded) : Stage → Stage → Guarded → Prop
  | enter {hold} (h : g.lock.admits hold = true) :
    Moves name g (.waiting hold) (.searching hold 0) { g with lock := g.lock.acquire hold }
  | find {hold i} (h : g.breakdown.categories[i]? = some name) :
    Moves name g (.searching hold i) (.found hold i) g
  | pass {hold i c} (h : g.breakdown.categories[i]? = some c) (hne : c ≠ name) :
    Moves name g (.searching hold i) (.searching hold (i + 1)) g
  | miss {i} (h : g.breakdown.categories[i]? = none) :
    Moves name g (.searching .shared i) (.waiting .exclusive)
      { g with lock := g.lock.release .shared }
  | add {i} (h : g.breakdown.categories[i]? = none) :
    Moves name g (.searching .exclusive i) (.counted .exclusive)
      { g with breakdown := g.breakdown.add name }
  | count {hold i} :
    Moves name g (.found hold i) (.counted hold) { g with breakdown := g.breakdown.raise i }
  | total {hold} :
    Moves name g (.counted hold) (.totalled hold) { g with breakdown := g.breakdown.raiseTotal }
  | leave {hold} :
    Moves name g (.totalled hold) .finished { g with lock := g.lock.release hold }

theorem moves_of_advance (h : stage.advance name g = some (stage', g')) :
    Moves name g stage stage' g' := by
  cases stage with
  | waiting hold =>
    simp only [Stage.advance] at h
    split at h
    next hadmits =>
      cases h
      exact .enter hadmits
    next => cases h
  | searching hold i =>
    simp only [Stage.advance] at h
    cases hc : g.breakdown.categories[i]? with
    | some c =>
      simp only [hc] at h
      by_cases hname : c = name
      · rw [if_pos hname] at h
        cases h
        exact .find (hname ▸ hc)
      · rw [if_neg hname] at h
        cases h
        exact .pass hc hname
    | none =>
      simp only [hc] at h
      cases hold with
      | shared =>
        cases h
        exact .miss hc
      | exclusive =>
        cases h
        exact .add hc
  | found hold i =>
    cases h
    exact .count
  | counted hold =>
    cases h
    exact .total
  | totalled hold =>
    cases h
    exact .leave
  | finished => cases h

namespace Moves

theorem not_mem_of_knows {categories : List Bytes} {i : Nat} (hnone : categories[i]? = none)
    (h : (Stage.searching .exclusive i).Knows name categories) : name ∉ categories := by
  have hall : categories.take i = categories :=
    List.take_of_length_le (List.getElem?_eq_none_iff.mp hnone)
  exact hall ▸ h

theorem lawful (h : Moves name g stage stage' g') (hknows : stage.Knows name g.breakdown.categories)
    (hb : g.breakdown.Lawful) : g'.breakdown.Lawful := by
  cases h with
  | add hnone => exact hb.add (not_mem_of_knows hnone hknows)
  | @count hold i => exact hb.raise i
  | total => exact ⟨hb.nodup, hb.lengths⟩
  | enter | find | pass | miss | leave => exact hb

/-- What the hit itself knows after its step. -/
theorem knows (h : Moves name g stage stage' g')
    (hknows : stage.Knows name g.breakdown.categories) :
    stage'.Knows name g'.breakdown.categories := by
  cases h with
  | @enter hold _ =>
    cases hold with
    | shared => trivial
    | exclusive => exact List.not_mem_nil
  | find h => exact h
  | @pass hold i c h hne =>
    cases hold with
    | shared => trivial
    | exclusive =>
      show name ∉ g.breakdown.categories.take (i + 1)
      rw [List.take_add_one, h]
      intro hmem
      rcases List.mem_append.mp hmem with hmem | hmem
      · exact hknows hmem
      · exact hne (List.mem_singleton.mp hmem).symm
  | miss | add | count | total | leave => trivial

/-- What another hit knows is not lost, since categories are added behind the others, and only by
a hit that has the lock for itself. -/
theorem knows_other (h : Moves name g stage stage' g') {x : Bytes} {other : Stage}
    (hapart : stage.holds .exclusive = true → other.holds .exclusive = false)
    (hknows : other.Knows x g.breakdown.categories) :
    other.Knows x g'.breakdown.categories := by
  cases h with
  | add =>
    cases other with
    | found hold i =>
      obtain ⟨hi, -⟩ := List.getElem?_eq_some_iff.mp hknows
      exact (List.getElem?_append_left hi).trans hknows
    | searching hold i =>
      cases hold with
      | shared => trivial
      | exclusive => cases hapart rfl
    | waiting | counted | totalled | finished => trivial
  | enter | find | pass | miss | count | total | leave => exact hknows

/-- **A hit is counted once, in the count of its category.** -/
theorem count_eq (h : Moves name g stage stage' g') (hb : g.breakdown.Lawful)
    (hknows : stage.Knows name g.breakdown.categories) (x : Bytes) :
    g'.breakdown.count x + (if name = x ∧ stage.inCount then 1 else 0) =
      g.breakdown.count x + if name = x ∧ stage'.inCount then 1 else 0 := by
  cases h with
  | add hnone =>
    rw [Breakdown.count_add hb (not_mem_of_knows hnone hknows)]
    simp [Stage.inCount]
  | count =>
    rw [Breakdown.count_raise hb hknows]
    simp [Stage.inCount]
  | enter | find | pass | miss | total | leave => rfl

theorem total_eq (h : Moves name g stage stage' g') :
    g'.breakdown.total + (if stage.inTotal then 1 else 0) =
      g.breakdown.total + if stage'.inTotal then 1 else 0 := by
  cases h <;> rfl

/-- A category is added by a hit that is counted with it. -/
theorem length_le (h : Moves name g stage stage' g') :
    g'.breakdown.categories.length + (if stage.inCount then 1 else 0) ≤
      g.breakdown.categories.length + if stage'.inCount then 1 else 0 := by
  cases h with
  | add =>
    show (g.breakdown.categories ++ [name]).length + 0 ≤ _
    rw [List.length_append]
    exact Nat.le_refl _
  | count => exact Nat.le_succ _
  | enter | find | pass | miss | total | leave => exact Nat.le_refl _

end Moves

/-! ## The lock -/

namespace Moves

theorem sharers_eq (h : Moves name g stage stage' g')
    (hsharer : stage.holds .shared = true → 1 ≤ g.lock.sharers) :
    g'.lock.sharers + (if stage.holds .shared then 1 else 0) =
      g.lock.sharers + if stage'.holds .shared then 1 else 0 := by
  cases h with
  | @enter hold _ => cases hold <;> rfl
  | miss => exact Nat.sub_add_cancel (hsharer rfl)
  | @leave hold =>
    cases hold with
    | shared => exact Nat.sub_add_cancel (hsharer rfl)
    | exclusive => rfl
  | find | pass | add | count | total => rfl

theorem taken_eq (h : Moves name g stage stage' g')
    (htaker : stage.holds .exclusive = true → g.lock.taken = true) :
    (if g'.lock.taken then 1 else 0) + (if stage.holds .exclusive then 1 else 0) =
      (if g.lock.taken then 1 else 0) + if stage'.holds .exclusive then 1 else 0 := by
  cases h with
  | @enter hold hadmits =>
    cases hold with
    | shared => rfl
    | exclusive =>
      have hfree : g.lock.taken = false := by
        simpa using (Bool.and_eq_true_iff.mp hadmits).1
      simp [Lock.acquire, Stage.holds, hfree]
  | @leave hold =>
    cases hold with
    | shared => rfl
    | exclusive => simp [Lock.release, Stage.holds, htaker rfl]
  | find | pass | miss | add | count | total => rfl

/-- A lock is not shared while a hit has it for itself. -/
theorem apart (h : Moves name g stage stage' g')
    (hapart : g.lock.taken = true → g.lock.sharers = 0) :
    g'.lock.taken = true → g'.lock.sharers = 0 := by
  cases h with
  | @enter hold hadmits =>
    cases hold with
    | shared =>
      intro htaken
      rw [Lock.admits, show g.lock.taken = true from htaken] at hadmits
      cases hadmits
    | exclusive => exact fun _ => eq_of_beq (Bool.and_eq_true_iff.mp hadmits).2
  | miss =>
    intro htaken
    show g.lock.sharers - 1 = 0
    rw [hapart htaken]
  | @leave hold =>
    cases hold with
    | shared =>
      intro htaken
      show g.lock.sharers - 1 = 0
      rw [hapart htaken]
    | exclusive => exact fun htaken => absurd htaken Bool.false_ne_true
  | find | pass | add | count | total => exact hapart

end Moves

/-- The number of hits that hold the lock in this way. -/
def holders (hold : Hold) (hits : List Hit) : Nat := hits.countP (·.stage.holds hold)

/-- The lock is held as it says. -/
structure LockHeld (lock : Lock) (hits : List Hit) : Prop where
  sharers : lock.sharers = holders .shared hits
  taken : (if lock.taken then 1 else 0) = holders .exclusive hits
  apart : lock.taken = true → lock.sharers = 0

variable {lock : Lock} {before after : List Hit} {names : List Bytes}

theorem countP_split (p : Hit → Bool) (h : Hit) : (before ++ h :: after).countP p =
    (before ++ after).countP p + if p h then 1 else 0 := by
  rw [List.countP_append, List.countP_append, List.countP_cons, Nat.add_assoc]

theorem holders_split (hold : Hold) : holders hold (before ++ ⟨name, stage⟩ :: after) =
    holders hold (before ++ after) + if stage.holds hold then 1 else 0 := countP_split _ _

theorem LockHeld.one_le_sharers (h : LockHeld lock (before ++ ⟨name, stage⟩ :: after))
    (hholds : stage.holds .shared = true) : 1 ≤ lock.sharers := by
  rw [h.sharers, holders_split, if_pos hholds]
  exact Nat.le_add_left _ _

/-- A hit that has the lock for itself is the only one that has it so. -/
theorem LockHeld.alone (h : LockHeld lock (before ++ ⟨name, stage⟩ :: after))
    (hholds : stage.holds .exclusive = true) :
    lock.taken = true ∧ holders .exclusive (before ++ after) = 0 := by
  have htaken := h.taken
  rw [holders_split, if_pos hholds] at htaken
  cases hlock : lock.taken with
  | true =>
    rw [hlock, if_pos rfl] at htaken
    exact ⟨rfl, by omega⟩
  | false =>
    rw [hlock, if_neg Bool.false_ne_true] at htaken
    omega

/-- **A step keeps the lock held as it says.** -/
theorem Moves.lockHeld (h : Moves name g stage stage' g')
    (hlock : LockHeld g.lock (before ++ ⟨name, stage⟩ :: after)) :
    LockHeld g'.lock (before ++ ⟨name, stage'⟩ :: after) where
  sharers := by
    have hmove := h.sharers_eq hlock.one_le_sharers
    have hsharers := hlock.sharers
    rw [holders_split] at hsharers ⊢
    omega
  taken := by
    have hmove := h.taken_eq fun hholds => (hlock.alone hholds).1
    have htaken := hlock.taken
    rw [holders_split] at htaken ⊢
    omega
  apart := h.apart hlock.apart

/-! ## All hits -/

/-- What holds between two steps of hits of the given categories. -/
structure Sound (names : List Bytes) (t : Traffic) : Prop where
  names_eq : t.hits.map (·.name) = names
  lock : LockHeld t.guarded.lock t.hits
  lawful : t.guarded.breakdown.Lawful
  knows : ∀ h ∈ t.hits, h.stage.Knows h.name t.guarded.breakdown.categories
  count : ∀ x, t.guarded.breakdown.count x =
    t.hits.countP fun h => h.name = x ∧ h.stage.inCount
  total : t.guarded.breakdown.total = t.hits.countP (·.stage.inTotal)
  few : t.guarded.breakdown.categories.length ≤ t.hits.countP (·.stage.inCount)

/-- **A step of any of the hits keeps what holds.** -/
theorem Moves.sound (h : Moves name g stage stage' g')
    (hs : Sound names ⟨g, before ++ ⟨name, stage⟩ :: after⟩) :
    Sound names ⟨g', before ++ ⟨name, stage'⟩ :: after⟩ := by
  have hself := hs.knows ⟨name, stage⟩ (List.mem_append_right _ List.mem_cons_self)
  -- what the others know stays true: beside one that holds the lock alone no other holds it
  have hothers : ∀ o ∈ before ++ after, o.stage.Knows o.name g'.breakdown.categories := by
    intro o ho
    refine h.knows_other (fun hholds => ?_) (hs.knows o ?_)
    · have hnone := (hs.lock.alone hholds).2
      rw [holders, List.countP_eq_zero] at hnone
      exact Bool.eq_false_iff.mpr (hnone o ho)
    · rw [List.mem_append] at ho ⊢
      exact ho.imp_right (List.mem_cons_of_mem _)
  refine ⟨?_, h.lockHeld hs.lock, h.lawful hself hs.lawful, ?_, fun x => ?_, ?_, ?_⟩
  · rw [← hs.names_eq, List.map_append, List.map_append, List.map_cons, List.map_cons]
  · intro o ho
    rcases List.mem_append.mp ho with ho | ho
    · exact hothers o (List.mem_append_left _ ho)
    · rcases List.mem_cons.mp ho with rfl | ho
      · exact h.knows hself
      · exact hothers o (List.mem_append_right _ ho)
  · have hmove := h.count_eq hs.lawful hself x
    have hcount := hs.count x
    rw [countP_split] at hcount ⊢
    simp only [decide_eq_true_eq] at hcount ⊢
    omega
  · have hmove := h.total_eq
    have htotal := hs.total
    rw [countP_split] at htotal ⊢
    dsimp only at htotal ⊢
    omega
  · have hmove := h.length_le
    have hfew := hs.few
    rw [countP_split] at hfew ⊢
    dsimp only at hfew ⊢
    omega

/-! ## Steps of a schedule -/

variable {t : Traffic}

/-- The hit at an index moves, if it can, and the others stay where they are. -/
theorem step_at (t : Traffic) (hhits : t.hits = before ++ ⟨name, stage⟩ :: after) :
    t.step before.length = match stage.advance name t.guarded with
      | none => t
      | some (stage', g') => ⟨g', before ++ ⟨name, stage'⟩ :: after⟩ := by
  have hget : t.hits[before.length]? = some ⟨name, stage⟩ := by
    rw [hhits, List.getElem?_append_right (Nat.le_refl _), Nat.sub_self]
    rfl
  unfold Traffic.step
  rw [hget]
  dsimp only
  cases stage.advance name t.guarded with
  | none => rfl
  | some next =>
    dsimp only
    rw [hhits, List.set_append_right _ _ (Nat.le_refl _), Nat.sub_self]
    rfl

theorem Sound.step (hs : Sound names t) (k : Nat) : Sound names (t.step k) := by
  cases hk : t.hits[k]? with
  | none =>
    unfold Traffic.step
    rw [hk]
    exact hs
  | some h =>
    obtain ⟨before, after, hhits, rfl⟩ :
        ∃ before after, t.hits = before ++ h :: after ∧ before.length = k := by
      obtain ⟨hlt, rfl⟩ := List.getElem?_eq_some_iff.mp hk
      refine ⟨t.hits.take k, t.hits.drop (k + 1), ?_, List.length_take_of_le (Nat.le_of_lt hlt)⟩
      rw [← List.drop_eq_getElem_cons hlt, List.take_append_drop]
    rw [step_at t hhits]
    split
    next => exact hs
    next stage' g' hadvance =>
      refine (moves_of_advance hadvance).sound ?_
      rw [← hhits]
      exact hs

theorem sound_start (names : List Bytes) : Sound names (.start names) := by
  have hstage : ∀ h ∈ (Traffic.start names).hits, h.stage = .waiting .shared := by
    intro h hh
    obtain ⟨name, -, rfl⟩ := List.mem_map.mp hh
    rfl
  have hnone : ∀ p : Hit → Bool, (∀ name, p ⟨name, .waiting .shared⟩ = false) →
      0 = (Traffic.start names).hits.countP p := by
    intro p hp
    refine (List.countP_eq_zero.mpr fun h hh => ?_).symm
    obtain ⟨name, -, rfl⟩ := List.mem_map.mp hh
    exact Bool.eq_false_iff.mp (hp name)
  refine ⟨?_, ⟨hnone _ fun _ => rfl, hnone _ fun _ => rfl, fun _ => rfl⟩, ⟨List.nodup_nil, rfl⟩,
    fun h hh => ?_, fun x => hnone _ fun name => ?_, hnone _ fun _ => rfl, Nat.zero_le _⟩
  · rw [Traffic.start, List.map_map]
    exact List.map_id _
  · rw [hstage h hh]
    trivial
  · exact decide_eq_false fun h => Bool.false_ne_true h.2

/-- **What holds between two steps holds after any schedule.** -/
theorem sound_run (names : List Bytes) (schedule : List Nat) :
    Sound names ((Traffic.start names).run schedule) := by
  suffices h : ∀ t, Sound names t → Sound names (t.run schedule) from h _ (sound_start names)
  induction schedule with
  | nil => exact fun _ hs => hs
  | cons k schedule ih => exact fun t hs => ih _ (hs.step k)

/-! ## The end of all hits -/

/-- How many steps a hit has left at most, if there are never more than `bound` categories. -/
def Stage.remaining (bound : Nat) : Stage → Nat
  | waiting .shared => 7 + bound + bound
  | searching .shared i => 6 + bound + (bound - i)
  | waiting .exclusive => 5 + bound
  | searching .exclusive i => 4 + (bound - i)
  | found _ _ => 3
  | counted _ => 2
  | totalled _ => 1
  | finished => 0

theorem Moves.remaining_lt (h : Moves name g stage stage' g') {bound : Nat}
    (hbound : g.breakdown.categories.length ≤ bound) :
    stage'.remaining bound < stage.remaining bound := by
  cases h with
  | @enter hold _ => cases hold <;> simp only [Stage.remaining] <;> omega
  | @find hold i _ => cases hold <;> simp only [Stage.remaining] <;> omega
  | @pass hold i c hc _ =>
    have hi := (List.getElem?_eq_some_iff.mp hc).1
    cases hold <;> simp only [Stage.remaining] <;> omega
  | miss | add | count | total | leave => simp only [Stage.remaining]; omega

/-- How many steps all hits together have left at most. There are never more categories than hits,
since each was added by one of them. -/
def potential (t : Traffic) : Nat := (t.hits.map (·.stage.remaining t.hits.length)).sum

theorem potential_lt (hs : Sound names t) (hhits : t.hits = before ++ ⟨name, stage⟩ :: after)
    (h : Moves name t.guarded stage stage' g') :
    potential ⟨g', before ++ ⟨name, stage'⟩ :: after⟩ < potential t := by
  have hbound := h.remaining_lt (Nat.le_trans hs.few List.countP_le_length)
  have hlength : (before ++ ⟨name, stage'⟩ :: after).length = t.hits.length := by
    rw [hhits, List.length_append, List.length_append, List.length_cons, List.length_cons]
  unfold potential
  dsimp only
  rw [hlength]
  generalize t.hits.length = bound at hbound ⊢
  rw [hhits]
  simp only [List.map_append, List.map_cons, List.sum_append, List.sum_cons]
  omega

/-- A hit that is not finished moves, unless it waits for a lock that is not to be had. -/
theorem exists_moves (hstage : stage ≠ .finished)
    (hlock : ∀ hold, stage = .waiting hold → g.lock.admits hold = true) :
    ∃ stage' g', stage.advance name g = some (stage', g') := by
  cases stage with
  | waiting hold => exact ⟨_, _, if_pos (hlock hold rfl)⟩
  | searching hold i =>
    simp only [Stage.advance]
    cases g.breakdown.categories[i]? with
    | some c => exact ⟨_, _, rfl⟩
    | none => cases hold <;> exact ⟨_, _, rfl⟩
  | found | counted | totalled => exact ⟨_, _, rfl⟩
  | finished => exact absurd rfl hstage

/-- **As long as not all hits are over, one of them moves**: if all the others wait, nobody has the
lock. -/
theorem exists_step (hs : Sound names t) (hover : t.isOver = false) :
    ∃ k, potential (t.step k) < potential t := by
  suffices h : ∃ h ∈ t.hits, ∃ stage' g', h.stage.advance h.name t.guarded = some (stage', g') by
    obtain ⟨h, hmem, stage', g', hadvance⟩ := h
    obtain ⟨before, after, hhits⟩ := List.append_of_mem hmem
    refine ⟨before.length, ?_⟩
    rw [step_at t hhits, hadvance]
    exact potential_lt hs hhits (moves_of_advance hadvance)
  by_cases hwait : ∀ h ∈ t.hits, h.stage = .finished ∨ ∃ hold, h.stage = .waiting hold
  · -- nobody has the lock then, so that it can be had by any of the hits that wait
    have hnone : ∀ hold, holders hold t.hits = 0 := by
      intro hold
      refine List.countP_eq_zero.mpr fun h hmem => ?_
      rcases hwait h hmem with hstage | ⟨hold, hstage⟩ <;> rw [hstage] <;> exact Bool.false_ne_true
    have hsharers := hs.lock.sharers.trans (hnone .shared)
    have htaken : t.guarded.lock.taken = false := by
      have htaken := hs.lock.taken.trans (hnone .exclusive)
      by_contra hnot
      rw [if_pos (Bool.not_eq_false _ ▸ hnot)] at htaken
      cases htaken
    obtain ⟨h, hmem, hstage⟩ := List.all_eq_false.mp hover
    refine ⟨h, hmem, exists_moves (fun hfinished => hstage (beq_iff_eq.mpr hfinished)) ?_⟩
    intro hold _
    cases hold <;> simp [Lock.admits, hsharers, htaken]
  · -- a hit that does not wait for the lock needs nothing to move
    simp only [not_forall, not_or, not_exists] at hwait
    obtain ⟨h, hmem, hstage, hwaiting⟩ := hwait
    exact ⟨h, hmem, exists_moves hstage fun hold hhold => absurd hhold (hwaiting hold)⟩

/-- **Every schedule can be continued until all hits are over.** -/
theorem exists_isOver (hs : Sound names t) : ∃ more, (t.run more).isOver = true := by
  induction hpotential : potential t using Nat.strongRecOn generalizing t with
  | ind n ih =>
    cases hover : t.isOver with
    | true => exact ⟨[], hover⟩
    | false =>
      obtain ⟨k, hk⟩ := exists_step hs hover
      obtain ⟨more, hmore⟩ := ih _ (hpotential ▸ hk) (hs.step k) rfl
      exact ⟨k :: more, hmore⟩

/-! ## A hit with nothing in between -/

/-- The next step of a hit, which stays where it is if there is none. -/
def goOn (name : Bytes) (x : Stage × Guarded) : Stage × Guarded := (x.1.advance name x.2).getD x

theorem run_single (name : Bytes) (n : Nat) (x : Stage × Guarded) :
    (Traffic.mk x.2 [⟨name, x.1⟩]).run (List.replicate n 0) =
      ⟨((goOn name)^[n] x).2, [⟨name, ((goOn name)^[n] x).1⟩]⟩ := by
  induction n generalizing x with
  | zero => rfl
  | succ n ih =>
    have hhits : (Traffic.mk x.2 [⟨name, x.1⟩]).hits = [] ++ ⟨name, x.1⟩ :: [] := rfl
    have hstep : (Traffic.mk x.2 [⟨name, x.1⟩]).step 0 =
        ⟨(goOn name x).2, [⟨name, (goOn name x).1⟩]⟩ := by
      refine (step_at _ hhits).trans ?_
      unfold goOn
      dsimp only
      cases x.1.advance name x.2 <;> rfl
    rw [Function.iterate_succ_apply, ← ih, ← hstep]
    rfl

/-- A hit passes the categories that are not its own. -/
theorem goOn_searching (hold : Hold) (g : Guarded) {i : Nat}
    (h : ∀ j < i, ∃ c, g.breakdown.categories[j]? = some c ∧ c ≠ name) :
    (goOn name)^[i] (.searching hold 0, g) = (.searching hold i, g) := by
  induction i with
  | zero => rfl
  | succ i ih =>
    obtain ⟨c, hc, hne⟩ := h i (Nat.lt_succ_self i)
    rw [Function.iterate_succ_apply', ih fun j hj => h j (Nat.lt_succ_of_lt hj)]
    simp only [goOn, Stage.advance, hc, if_neg hne, Option.getD_some]

theorem goOn_found {i : Nat} (hold : Hold) (h : g.breakdown.categories[i]? = some name) :
    goOn name (.searching hold i, g) = (.found hold i, g) := by
  simp only [goOn, Stage.advance, h, if_pos, Option.getD_some]

theorem goOn_searching_all (hold : Hold) (h : name ∉ g.breakdown.categories) :
    (goOn name)^[g.breakdown.categories.length] (.searching hold 0, g) =
      (.searching hold g.breakdown.categories.length, g) :=
  goOn_searching hold g fun _ hj =>
    ⟨_, List.getElem?_eq_getElem hj, fun hname => h (hname ▸ List.getElem_mem hj)⟩

/-- **A hit with nothing in between is `Breakdown.hit`.** -/
theorem run_alone (b : Breakdown) (name : Bytes) :
    ∃ n, (Traffic.mk { breakdown := b } [{ name }]).run (List.replicate n 0) =
      ⟨{ breakdown := b.hit name }, [⟨name, .finished⟩]⟩ := by
  suffices h : ∃ n, (goOn name)^[n] (.waiting .shared, { breakdown := b }) =
      (.finished, { breakdown := b.hit name }) by
    obtain ⟨n, hn⟩ := h
    refine ⟨n, (run_single name n (.waiting .shared, { breakdown := b })).trans ?_⟩
    rw [hn]
  unfold Breakdown.hit
  cases hfind : b.categories.findIdx? (· = name) with
  | some i =>
    obtain ⟨hi, hname, hpass⟩ := List.findIdx?_eq_some_iff_getElem.mp hfind
    -- one step to get the lock, the search, and then: found, counted, totalled, finished
    refine ⟨4 + (i + 1), ?_⟩
    rw [Function.iterate_add_apply, Function.iterate_succ_apply]
    show (goOn name)^[4] ((goOn name)^[i] (.searching .shared 0, _)) = _
    rw [goOn_searching .shared _ fun j hj => ⟨_, List.getElem?_eq_getElem (Nat.lt_trans hj hi),
      fun h => hpass j hj (decide_eq_true h)⟩]
    rw [Function.iterate_succ_apply, goOn_found .shared
      ((List.getElem?_eq_getElem hi).trans (congrArg some (of_decide_eq_true hname)))]
    rfl
  | none =>
    have hmissing : name ∉ b.categories := fun hmem => by
      simpa using List.findIdx?_eq_none_iff.mp hfind name hmem
    have hshared : goOn name ((goOn name)^[b.categories.length]
        (.searching .shared 0, ⟨Lock.acquire {} .shared, b⟩)) =
          (.waiting .exclusive, ⟨{}, b⟩) := by
      rw [goOn_searching_all (g := ⟨Lock.acquire {} .shared, b⟩) .shared hmissing]
      simp [goOn, Stage.advance, Lock.acquire, Lock.release]
    have hexclusive : goOn name ((goOn name)^[b.categories.length]
        (.searching .exclusive 0, ⟨Lock.acquire {} .exclusive, b⟩)) =
          (.counted .exclusive, ⟨Lock.acquire {} .exclusive, b.add name⟩) := by
      rw [goOn_searching_all (g := ⟨Lock.acquire {} .exclusive, b⟩) .exclusive hmissing]
      simp [goOn, Stage.advance]
    -- two searches that fail, with the change from the shared lock to the exclusive one between
    refine ⟨3 + (b.categories.length + (2 + (b.categories.length + 1))), ?_⟩
    rw [Function.iterate_add_apply, Function.iterate_add_apply, Function.iterate_add_apply,
      Function.iterate_succ_apply]
    show (goOn name)^[3] ((goOn name)^[b.categories.length] (goOn name (goOn name
      ((goOn name)^[b.categories.length] (.searching .shared 0, _))))) = _
    rw [hshared]
    show (goOn name)^[2] (goOn name ((goOn name)^[b.categories.length]
      (.searching .exclusive 0, _))) = _
    rw [hexclusive]
    rfl

/-! ## No hit is lost -/

/-- When all hits are over, all of them have been counted. -/
theorem Sound.counts (hs : Sound names t) (hover : t.isOver = true) :
    (∀ name, t.guarded.breakdown.count name = names.count name)
      ∧ t.guarded.breakdown.total = names.length := by
  have hfinished : ∀ h ∈ t.hits, h.stage = .finished :=
    fun h hmem => eq_of_beq (List.all_eq_true.mp hover h hmem)
  constructor
  · intro name
    rw [hs.count, ← hs.names_eq, List.count, List.countP_map]
    refine List.countP_congr fun h hmem => ?_
    rw [hfinished h hmem]
    simp [Stage.inCount]
  · rw [hs.total, ← hs.names_eq, List.length_map, List.countP_eq_length]
    intro h hmem
    rw [hfinished h hmem]
    rfl

/-- **Hits at the same time are counted exactly.** However the steps of hits are mixed, no category
stands twice and the lists of categories and counts are equally long; every schedule can be
continued until all hits are over, and once they are, each category has been counted as often as it
was hit, and the total is the number of hits. -/
theorem run_counts (names : List Bytes) (schedule : List Nat) :
    ((Traffic.start names).run schedule).guarded.breakdown.categories.Nodup
    ∧ ((Traffic.start names).run schedule).guarded.breakdown.categories.length =
      ((Traffic.start names).run schedule).guarded.breakdown.counts.length
    ∧ (∃ more, ((Traffic.start names).run (schedule ++ more)).isOver = true)
    ∧ (((Traffic.start names).run schedule).isOver = true →
      (∀ name, ((Traffic.start names).run schedule).guarded.breakdown.count name =
        names.count name)
      ∧ ((Traffic.start names).run schedule).guarded.breakdown.total = names.length) := by
  have hs := sound_run names schedule
  obtain ⟨more, hmore⟩ := exists_isOver hs
  refine ⟨hs.lawful.nodup, hs.lawful.lengths, ⟨more, ?_⟩, hs.counts⟩
  rw [Traffic.run, List.foldl_append]
  exact hmore

/-- Two hits of a category that both find it missing before one of them adds it, and a hit of
another category that comes in between. -/
def bothMiss : List Nat :=
  [0, 1, 0, 1, 0, 0, 1, 0, 0] ++ List.replicate 3 2 ++ List.replicate 5 1 ++ List.replicate 5 2

theorem run_counts_bothMiss :
    ((Traffic.start [utf8 "200", utf8 "200", utf8 "404"]).run bothMiss).isOver = true
    ∧ (∀ name, ((Traffic.start [utf8 "200", utf8 "200", utf8 "404"]).run
        bothMiss).guarded.breakdown.count name =
      [utf8 "200", utf8 "200", utf8 "404"].count name)
    ∧ ((Traffic.start [utf8 "200", utf8 "200", utf8 "404"]).run
      bothMiss).guarded.breakdown.total = 3 := by
  have hover : ((Traffic.start [utf8 "200", utf8 "200", utf8 "404"]).run
      bothMiss).isOver = true := by decide +kernel
  exact ⟨hover, (run_counts _ bothMiss).2.2.2 hover⟩

end ScriptTidy.Status
