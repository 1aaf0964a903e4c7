import ScriptTidy.EditScript.Basic

/-!
# The middle of a shortest edit script

Two searches walk through the grid of the two lists at once, one from the start and one from
the end, each reaching as far as it can with a growing number of edits. Where they meet, a
shortest script can be cut in two. Diagonal `k` of the grid holds the points whose two
coordinates differ by `k`.
-/

namespace ScriptTidy.EditScript

variable {α : Type} [DecidableEq α]

/-- How far one of the two searches has come: the furthest point on each diagonal, and how many
diagonals at both ends have left the grid. -/
structure Front where
  reach : Array Int
  skipLow : Int := 0
  skipHigh : Int := 0

/-- The furthest point on a diagonal, which is stored at the place `i`; `-1` if there is none. -/
def Front.at (f : Front) (i : Int) : Int := if i < 0 then -1 else f.reach.getD i.toNat (-1)

/-- The points reached, with `x` at the place `i`. This is a step of its own so that the array is
changed in place. -/
@[noinline] def put (reach : Array Int) (i : Int) (x : Int) : Array Int :=
  reach.setIfInBounds i.toNat x

/-- Goes on from the point with the coordinates `x` and `y` as long as the items are equal. -/
def slide (a b : Array α) : (fuel : Nat) → (x y : Int) → Int
  | 0, x, _ => x
  | fuel + 1, x, y =>
    if 0 ≤ x ∧ 0 ≤ y then
      match a[x.toNat]?, b[y.toNat]? with
      | some p, some q => if p = q then slide a b fuel (x + 1) (y + 1) else x
      | _, _ => x
    else x

/-- One search takes one step on the diagonal `k`, with `d` edits. The result is the point
reached on it. -/
def Front.step (f : Front) (a b : Array α) (offset d k : Int) : Front × Int :=
  let i := offset + k
  let x :=
    if k = -d ∨ (k ≠ d ∧ f.at (i - 1) < f.at (i + 1)) then f.at (i + 1) else f.at (i - 1) + 1
  let x := slide a b (a.size + 1) x (x - k)
  ({ f with reach := put f.reach i x }, x)

/-- The point reached lies beyond the end of the grid on one of its sides. -/
def Front.leave (f : Front) (a b : Array α) (x y : Int) : Option Front :=
  if (a.size : Int) < x then some { f with skipHigh := f.skipHigh + 2 }
  else if (b.size : Int) < y then some { f with skipLow := f.skipLow + 2 }
  else none

/-- All steps of one search with `d` edits, from the diagonal `k` on. `meet` says where the
script can be cut if the search has reached the point `x` of the diagonal `k`. -/
def walk (a b : Array α) (meet : Int → Int → Option (Int × Int)) (offset d : Int) :
    (fuel : Nat) → (k : Int) → Front → Front × Option (Int × Int)
  | 0, _, f => (f, none)
  | fuel + 1, k, f =>
    if d - f.skipHigh < k then (f, none)
    else
      let (f, x) := f.step a b offset d k
      match f.leave a b x (x - k) with
      | some f => walk a b meet offset d fuel (k + 2) f
      | none =>
        match meet k x with
        | some cut => (f, some cut)
        | none => walk a b meet offset d fuel (k + 2) f

/-- Both searches in turn with `d`, `d + 1`, … edits. The result is where they meet. -/
def search (a b ra rb : Array α) (offset delta : Int) :
    (fuel : Nat) → (d : Nat) → (front back : Front) → Option (Int × Int)
  | 0, _, _, _ => none
  | fuel + 1, d, front, back =>
    let len : Int := a.size
    let inside := fun (i : Int) => 0 ≤ i ∧ i < 2 * offset
    let odd := delta % 2 ≠ 0
    let meetBack := fun (k x : Int) =>
      let i := offset + delta - k
      if odd ∧ inside i ∧ back.at i ≠ -1 ∧ len - back.at i ≤ x then some (x, x - k) else none
    let (front, cut) := walk a b meetBack offset d (d + 1) (-d + front.skipLow) front
    match cut with
    | some cut => some cut
    | none =>
      let meetFront := fun (k x : Int) =>
        let i := offset + delta - k
        if ¬ odd ∧ inside i ∧ front.at i ≠ -1 ∧ len - x ≤ front.at i then
          some (front.at i, offset + front.at i - i)
        else none
      let (back, cut) := walk ra rb meetFront offset d (d + 1) (-d + back.skipLow) back
      match cut with
      | some cut => some cut
      | none => search a b ra rb offset delta fuel (d + 1) front back

/-- The point at which a shortest script for two lists can be cut in two: a length for each of
the lists. There is none if the lists have nothing in common. -/
def middle? (as bs : List α) : Option (Nat × Nat) :=
  let most := (as.length + bs.length + 1) / 2
  let start : Front :=
    { reach := (Array.replicate (2 * most) (-1 : Int)).setIfInBounds (most + 1) 0 }
  let delta : Int := (as.length : Int) - bs.length
  (search as.toArray bs.toArray as.reverse.toArray bs.reverse.toArray most delta most 0
    start start).map fun (x, y) => (x.toNat, y.toNat)

end ScriptTidy.EditScript
