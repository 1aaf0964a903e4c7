import ScriptTidy.EditScript.Basic

/-!
# Cleaning up edit scripts

Neighbouring deletions and insertions are gathered into one of each, what a deletion and an
insertion have in common becomes kept, and kept runs that touch are joined. After that, an edit
between two kept runs is shifted sideways where that removes one of them, and the clean-up
starts over.
-/

namespace ScriptTidy.EditScript

variable {α : Type} [DecidableEq α]

/-- Edits gathered since the last kept run: what was deleted and inserted, and by how many
edits. -/
structure Pending (α : Type) where
  deletions : Nat := 0
  deleted : List α := []
  insertions : Nat := 0
  inserted : List α := []

/-- The gathered edits as edits of a script. -/
def Pending.edits (p : Pending α) : List (Edit α) :=
  (if p.deletions = 0 then [] else [⟨.delete, p.deleted⟩])
    ++ (if p.insertions = 0 then [] else [⟨.insert, p.inserted⟩])

/-- Adds kept items behind a script, which is given in reverse order. -/
def keepBehind (items : List α) : List (Edit α) → List (Edit α)
  | ⟨.keep, earlier⟩ :: script => ⟨.keep, earlier ++ items⟩ :: script
  | script => ⟨.keep, items⟩ :: script

/-- Ends the gathering of edits at a run of kept items. The script behind which all is put is
given in reverse order. -/
def Pending.settle (p : Pending α) (kept : List α) (script : List (Edit α)) : List (Edit α) :=
  if p.deletions ≠ 0 ∧ p.insertions ≠ 0 then
    let n := commonLength p.inserted p.deleted
    let script := if n = 0 then script else keepBehind (p.inserted.take n) script
    let inserted := p.inserted.drop n
    let deleted := p.deleted.drop n
    let m := commonTailLength inserted deleted
    let rest : List (Edit α) :=
      [⟨.delete, deleted.take (deleted.length - m)⟩,
       ⟨.insert, inserted.take (inserted.length - m)⟩]
    ⟨.keep, inserted.drop (inserted.length - m) ++ kept⟩ :: (rest.reverse ++ script)
  else if p.deletions = 0 ∧ p.insertions = 0 then keepBehind kept script
  else ⟨.keep, kept⟩ :: (p.edits.reverse ++ script)

/-- Gathers the edits of a script; `done` is what lies before it, in reverse order. -/
def gather (p : Pending α) (done : List (Edit α)) : List (Edit α) → List (Edit α)
  | [] => p.settle [] done
  | ⟨.insert, items⟩ :: rest =>
    gather { p with insertions := p.insertions + 1, inserted := p.inserted ++ items } done rest
  | ⟨.delete, items⟩ :: rest =>
    gather { p with deletions := p.deletions + 1, deleted := p.deleted ++ items } done rest
  | ⟨.keep, items⟩ :: rest => gather {} (p.settle items done) rest

/-- The script without an empty kept run at its end, in order. The script is given in reverse
order. -/
def dropEmptyEnd : List (Edit α) → List (Edit α)
  | ⟨_, []⟩ :: script => script.reverse
  | script => script.reverse

/-- The items without those of `tail` at their end. -/
def trimTail (tail items : List α) : List α := items.take (items.length - tail.length)

/-- Shifts edits between two kept runs sideways. `done` is what lies before, in reverse order;
the flag tells whether anything was shifted. -/
def shift (done : List (Edit α)) : List (Edit α) → List (Edit α) × Bool
  | cur :: next :: rest =>
    match done with
    | prev :: earlier =>
      if prev.kind = .keep ∧ next.kind = .keep ∧ prev.items.isSuffixOf cur.items then
        let cur := ⟨cur.kind, prev.items ++ trimTail prev.items cur.items⟩
        let next := ⟨next.kind, prev.items ++ next.items⟩
        ((shift (next :: cur :: earlier) rest).1, true)
      else if prev.kind = .keep ∧ next.kind = .keep ∧ next.items.isPrefixOf cur.items then
        let prev := ⟨prev.kind, prev.items ++ next.items⟩
        let cur := ⟨cur.kind, cur.items.drop next.items.length ++ next.items⟩
        ((shift (cur :: prev :: earlier) rest).1, true)
      else shift (cur :: done) (next :: rest)
    | [] => shift [cur] (next :: rest)
  | rest => (done.reverse ++ rest, false)

/-- Cleans up a script. Each round of shifts makes it shorter, so there are at most `fuel` of
them. -/
def mergeWith : (fuel : Nat) → List (Edit α) → List (Edit α)
  | 0, script => script
  | fuel + 1, script =>
    let (shifted, changed) := shift [] (dropEmptyEnd (gather {} [] script))
    if changed then mergeWith fuel shifted else shifted

/-- Cleans up a script. -/
def merge (script : List (Edit α)) : List (Edit α) := mergeWith (script.length + 2) script

end ScriptTidy.EditScript
