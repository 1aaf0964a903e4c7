import ScriptTidy.EditScript.Bisect
import ScriptTidy.EditScript.Merge

/-!
# Computing an edit script

What two lists share at their ends is kept. The rest is easy if one list lies inside the other;
otherwise it is cut at a long run that both have in common, or else in the middle of a shortest
script.
-/

namespace ScriptTidy.EditScript

variable {α : Type} [DecidableEq α]

/-- Two lists cut at a run that both have in common. -/
structure HalfMatch (α : Type) where
  longBefore : List α
  longAfter : List α
  shortBefore : List α
  shortAfter : List α
  common : List α

/-- The cut at the longest common run around the quarter of `long` that starts at `i`, if the
run is at least half as long as `long`. -/
def halfMatchAt? (long short : List α) (i : Nat) : Option (HalfMatch α) :=
  let seed := (long.drop i).take (long.length / 4)
  let cutAt := fun (j : Nat) =>
    let n := commonLength (long.drop i) (short.drop j)
    let m := commonTailLength (long.take i) (short.take j)
    (⟨long.take (i - m), long.drop (i + n), short.take (j - m), short.drop (j + n),
      (short.drop (j - m)).take (m + n)⟩ : HalfMatch α)
  let best := (findAll seed 0 short).foldl (fun (best : Option (HalfMatch α)) j =>
    let h := cutAt j
    if (best.map (·.common.length)).getD 0 < h.common.length then some h else best) none
  best.filter fun h => long.length ≤ 2 * h.common.length

/-- The better of the cuts around the second and the third quarter of `long`. -/
def halfMatch? (long short : List α) : Option (HalfMatch α) :=
  if long.length < 4 ∨ short.length * 2 < long.length then none
  else
    match halfMatchAt? long short ((long.length + 3) / 4),
      halfMatchAt? long short ((long.length + 1) / 2) with
    | some h, some k => if k.common.length < h.common.length then some h else some k
    | some h, none => some h
    | none, k => k

/-- The script that deletes one list and inserts the other. -/
def replaceAll (as bs : List α) : List (Edit α) := [⟨.delete, as⟩, ⟨.insert, bs⟩]

/-- The script for two lists without common ends; `recur` is used for smaller ones. -/
def middleScript (recur : List α → List α → List (Edit α)) (as bs : List α) : List (Edit α) :=
  if as.isEmpty then [⟨.insert, bs⟩]
  else if bs.isEmpty then [⟨.delete, as⟩]
  else
    let shrinks := decide (bs.length < as.length)
    let (long, short) := if shrinks then (as, bs) else (bs, as)
    match find? short long with
    | some i =>
      let kind := if shrinks then EditKind.delete else .insert
      [⟨kind, long.take i⟩, ⟨.keep, short⟩, ⟨kind, long.drop (i + short.length)⟩]
    | none =>
      if short.length = 1 then replaceAll as bs
      else match halfMatch? long short with
        | some h =>
          let (as, bs) := if shrinks then ((h.longBefore, h.longAfter), h.shortBefore, h.shortAfter)
            else ((h.shortBefore, h.shortAfter), h.longBefore, h.longAfter)
          recur as.1 bs.1 ++ [⟨.keep, h.common⟩] ++ recur as.2 bs.2
        | none =>
          match middle? as bs with
          | some (x, y) => recur (as.take x) (bs.take y) ++ recur (as.drop x) (bs.drop y)
          | none => replaceAll as bs

/-- The script from one list to the other. Each cut makes the lists shorter, so `fuel` only has
to exceed their total length. -/
def computeWith : (fuel : Nat) → (as bs : List α) → List (Edit α)
  | 0, as, bs => replaceAll as bs
  | fuel + 1, as, bs =>
    if as = bs then (if as.isEmpty then [] else [⟨.keep, as⟩])
    else
      let n := commonLength as bs
      let (head, as, bs) := (as.take n, as.drop n, bs.drop n)
      let m := commonTailLength as bs
      let tail := as.drop (as.length - m)
      let script := middleScript (computeWith fuel) (as.take (as.length - m))
        (bs.take (bs.length - m))
      merge ((if head.isEmpty then [] else [⟨.keep, head⟩]) ++ script
        ++ (if tail.isEmpty then [] else [⟨.keep, tail⟩]))

/-- The script from one list to the other. -/
def compute (as bs : List α) : List (Edit α) := computeWith (as.length + bs.length + 1) as bs

end ScriptTidy.EditScript
