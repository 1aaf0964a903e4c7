import ScriptTidy.Status.Breakdown

/-!
# Hits at the same time

Several hits of a breakdown can be under way at once. Each looks for its category while it shares a
lock with the others, and counts itself if the category is there. If it is not, the hit lets go of
the lock, waits until it has the lock for itself and looks again, since another hit may have added
the category in between; only if it is still missing the hit adds it.

The steps of the hits may come in any order that the lock allows.
-/

namespace ScriptTidy.Status

/-- How the lock is held. -/
inductive Hold
  | shared
  | exclusive
deriving DecidableEq, Repr

/-- A lock that any number of hits share, or that one hit has for itself. -/
structure Lock where
  /-- The number of hits that share the lock. -/
  sharers : Nat := 0
  /-- A hit has the lock for itself. -/
  taken : Bool := false
deriving DecidableEq, Repr

namespace Lock

/-- Whether the lock can be had. -/
def admits (l : Lock) : Hold → Bool
  | .shared => !l.taken
  | .exclusive => !l.taken && l.sharers == 0

/-- The lock after one more hit has got it. -/
def acquire (l : Lock) : Hold → Lock
  | .shared => { l with sharers := l.sharers + 1 }
  | .exclusive => { l with taken := true }

/-- The lock after a hit has let go of it. -/
def release (l : Lock) : Hold → Lock
  | .shared => { l with sharers := l.sharers - 1 }
  | .exclusive => { l with taken := false }

end Lock

namespace Breakdown

/-- One more in the count of the category at an index. -/
def raise (b : Breakdown) (i : Nat) : Breakdown := { b with counts := raiseAt i b.counts }

/-- One more in the total. -/
def raiseTotal (b : Breakdown) : Breakdown := { b with total := b.total + 1 }

/-- A new category, with one in its count. Nobody sees one of the two lists without the other,
because a category is only added by a hit that has the lock for itself. -/
def add (b : Breakdown) (name : Bytes) : Breakdown :=
  { b with categories := b.categories ++ [name], counts := b.counts ++ [1] }

end Breakdown

/-- How far a hit has come. -/
inductive Stage
  /-- It waits for the lock. -/
  | waiting (hold : Hold)
  /-- It has looked at the categories before index `i`. -/
  | searching (hold : Hold) (i : Nat)
  /-- It has found its category at index `i`. -/
  | found (hold : Hold) (i : Nat)
  /-- It is in the count of its category. -/
  | counted (hold : Hold)
  /-- It is in the total as well. -/
  | totalled (hold : Hold)
  /-- It has let go of the lock. -/
  | finished
deriving DecidableEq, Repr

/-- A breakdown with the lock that guards it. -/
structure Guarded where
  lock : Lock := {}
  breakdown : Breakdown := {}
deriving DecidableEq, Repr

/-- The next step of a hit: how far it has come then, and the breakdown after it. There is none if
the hit is finished, and none now if it has to wait. -/
def Stage.advance (name : Bytes) (g : Guarded) : Stage → Option (Stage × Guarded)
  | .waiting hold =>
    if g.lock.admits hold then
      some (.searching hold 0, { g with lock := g.lock.acquire hold })
    else none
  | .searching hold i =>
    match g.breakdown.categories[i]? with
    | some c => some (if c = name then .found hold i else .searching hold (i + 1), g)
    | none =>
      match hold with
      | .shared => some (.waiting .exclusive, { g with lock := g.lock.release .shared })
      | .exclusive => some (.counted .exclusive, { g with breakdown := g.breakdown.add name })
  | .found hold i => some (.counted hold, { g with breakdown := g.breakdown.raise i })
  | .counted hold => some (.totalled hold, { g with breakdown := g.breakdown.raiseTotal })
  | .totalled hold => some (.finished, { g with lock := g.lock.release hold })
  | .finished => none

/-- A hit of a category. -/
structure Hit where
  name : Bytes
  stage : Stage := .waiting .shared
deriving DecidableEq, Repr

/-- A breakdown with all the hits of it, those under way and those that are over. -/
structure Traffic where
  guarded : Guarded := {}
  hits : List Hit
deriving DecidableEq, Repr

namespace Traffic

/-- Hits of the given categories before their first step. -/
def start (names : List Bytes) : Traffic := { hits := names.map fun name => { name } }

/-- The next step of the hit at an index. If there is none, nothing happens. -/
def step (t : Traffic) (k : Nat) : Traffic :=
  match t.hits[k]? with
  | none => t
  | some h =>
    match h.stage.advance h.name t.guarded with
    | none => t
    | some (stage, guarded) => { guarded, hits := t.hits.set k { h with stage } }

/-- The steps of a schedule, which says of each step which hit it belongs to. -/
def run (t : Traffic) (schedule : List Nat) : Traffic := schedule.foldl step t

/-- Whether all hits are over. -/
def isOver (t : Traffic) : Bool := t.hits.all fun h => h.stage == .finished

end Traffic

end ScriptTidy.Status
