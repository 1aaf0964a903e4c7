import ScriptTidy.Service.Cache

/-!
# What caches are relied on for

A cache may lose any value at any time, but what it gives for a key is the value that was set last
under that key. `CacheKind.Lawful` says this about the uses of a cache from the time it was empty.

* `Lru.lawful` : caches that drop the least recently used value are lawful.
-/

namespace ScriptTidy.Service

/-- A use of a cache. -/
inductive CacheUse (κ ν : Type)
  | get (key : κ)
  | add (key : κ) (value : ν)

namespace CacheKind

variable {κ ν : Type}

/-- A cache after uses, of which the latest comes first. -/
def after (kind : CacheKind κ ν) (c : kind.Cache) : List (CacheUse κ ν) → kind.Cache
  | [] => c
  | .get key :: past => (kind.get (kind.after c past) key).2
  | .add key value :: past => kind.add (kind.after c past) key value

/-- The value that was set last under a key. -/
def lastAdded? [DecidableEq κ] (key : κ) : List (CacheUse κ ν) → Option ν
  | [] => none
  | .get _ :: past => lastAdded? key past
  | .add k value :: past => if k = key then some value else lastAdded? key past

theorem mem_of_lastAdded? [DecidableEq κ] {key : κ} {value : ν} {past : List (CacheUse κ ν)}
    (h : lastAdded? key past = some value) : .add key value ∈ past := by
  induction past with
  | nil => cases h
  | cons u past ih =>
    cases u with
    | get k => exact List.mem_cons_of_mem _ (ih h)
    | add k v =>
      rw [lastAdded?] at h
      split at h
      next hk =>
        cases h
        rw [hk]
        exact List.mem_cons_self
      next => exact List.mem_cons_of_mem _ (ih h)

/-- What a cache is relied on for. -/
structure Lawful [DecidableEq κ] (kind : CacheKind κ ν) : Prop where
  /-- There are caches with room for one value or more. -/
  new_eq_ok : ∀ {size : Int}, 1 ≤ size → ∃ c, kind.new size = .ok c
  /-- What is found under a key is the value that was set last. -/
  get_eq_some : ∀ {size : Int} {c : kind.Cache}, kind.new size = .ok c →
    ∀ {past : List (CacheUse κ ν)} {key : κ} {value : ν},
      (kind.get (kind.after c past) key).1 = some value → lastAdded? key past = some value
  /-- Looking for what is not there changes nothing. -/
  get_eq_none : ∀ {c : kind.Cache} {key : κ}, (kind.get c key).1 = none →
    (kind.get c key).2 = c

end CacheKind

/-! ## Caches that drop the least recently used value -/

namespace Lru

variable {κ ν : Type} [DecidableEq κ] {c : Lru κ ν} {key : κ} {value : ν} {e : κ × ν}

theorem mem_of_find? (h : c.find? key = some value) : (key, value) ∈ c.entries := by
  obtain ⟨⟨k, v⟩, hfind, rfl⟩ := Option.map_eq_some_iff.mp h
  have hkey : k = key := by simpa using List.find?_some hfind
  exact hkey ▸ List.mem_of_find?_eq_some hfind

theorem mem_put (h : e ∈ (c.put key value).entries) :
    e = (key, value) ∨ e.1 ≠ key ∧ e ∈ c.entries := by
  rcases List.mem_cons.mp (List.mem_of_mem_take h) with heq | hmem
  · exact .inl heq
  · obtain ⟨hmem, hne⟩ := List.mem_filter.mp hmem
    exact .inr ⟨of_decide_eq_true hne, hmem⟩

theorem use_fst (c : Lru κ ν) (key : κ) : (c.use key).1 = c.find? key := by
  unfold use
  split
  next h => exact h.symm
  next h => exact h.symm

theorem use_snd_of_find?_eq_none (h : c.find? key = none) : (c.use key).2 = c := by
  rw [use, h]

/-- Looking for a value brings nothing in. -/
theorem mem_use (h : e ∈ (c.use key).2.entries) : e ∈ c.entries := by
  cases hfind : c.find? key with
  | some v =>
    rw [use, hfind] at h
    rcases mem_put h with rfl | ⟨-, hmem⟩
    · exact mem_of_find? hfind
    · exact hmem
  | none => rwa [use_snd_of_find?_eq_none hfind] at h

omit [DecidableEq κ] in
theorem entries_of_new {size : Int} (h : new size = .ok c) : c.entries = [] := by
  unfold new at h
  split at h <;> cases h
  rfl

/-- Each entry has the value that was set last under its key. -/
theorem lastAdded?_of_mem {past : List (CacheUse κ ν)} (hempty : c.entries = [])
    (h : e ∈ ((kind κ ν).after c past).entries) :
    CacheKind.lastAdded? e.1 past = some e.2 := by
  induction past with
  | nil =>
    change e ∈ c.entries at h
    rw [hempty] at h
    cases h
  | cons u past ih =>
    cases u with
    | get k => exact ih (mem_use h)
    | add k v =>
      rcases mem_put h with rfl | ⟨hne, hmem⟩
      · exact if_pos rfl
      · rw [CacheKind.lastAdded?, if_neg (Ne.symm hne)]
        exact ih hmem

/-- **A cache that drops the least recently used value can be relied on.** -/
theorem lawful : (kind κ ν).Lawful where
  new_eq_ok h := ⟨_, if_neg (by omega)⟩
  get_eq_some hnew past key _ h :=
    lastAdded?_of_mem (entries_of_new hnew) (mem_of_find? ((use_fst _ _).symm.trans h))
  get_eq_none {c key} h := use_snd_of_find?_eq_none ((use_fst c key).symm.trans h)

end Lru

end ScriptTidy.Service
