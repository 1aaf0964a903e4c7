import ScriptTidy.Text.Bytes

/-!
# Counts by category

A breakdown counts how often each of some categories was hit. Categories stand in the order of
their first hit.
-/

namespace ScriptTidy.Status

/-- Counts by category, and their total. -/
structure Breakdown where
  categories : List Bytes := []
  counts : List Nat := []
  total : Nat := 0
deriving DecidableEq, Repr

namespace Breakdown

/-- The list with the element at an index raised by one. -/
def raiseAt : Nat → List Nat → List Nat
  | _, [] => []
  | 0, n :: rest => (n + 1) :: rest
  | i + 1, n :: rest => n :: raiseAt i rest

/-- The breakdown after a hit of a category, which is added if it is new. -/
def hit (b : Breakdown) (name : Bytes) : Breakdown :=
  match b.categories.findIdx? (· = name) with
  | some i => { b with counts := raiseAt i b.counts, total := b.total + 1 }
  | none =>
    { categories := b.categories ++ [name], counts := b.counts ++ [1], total := b.total + 1 }

/-- How often a category was hit. -/
def count (b : Breakdown) (name : Bytes) : Nat :=
  match b.categories.findIdx? (· = name) with
  | some i => b.counts.getD i 0
  | none => 0

/-- The categories with their counts. -/
def entries (b : Breakdown) : List (Bytes × Nat) := b.categories.zip b.counts

end Breakdown

end ScriptTidy.Status
