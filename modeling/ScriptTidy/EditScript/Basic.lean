import ScriptTidy.Text.Bytes

/-!
# Edit scripts

An edit script turns one list into another: its edits keep, delete or insert a run of items.
What a script spells for the two sides are the views `before` and `after`.
-/

namespace ScriptTidy

/-- What an edit does with its items. -/
inductive EditKind
  | keep | delete | insert
deriving DecidableEq, Repr

/-- A run of items that are kept, deleted or inserted together. -/
structure Edit (α : Type) where
  kind : EditKind
  items : List α
deriving DecidableEq, Repr

namespace EditScript

variable {α : Type}

/-- The items of the list that the script starts from. -/
def before (script : List (Edit α)) : List α :=
  script.flatMap fun e => if e.kind = .insert then [] else e.items

/-- The items of the list that the script arrives at. -/
def after (script : List (Edit α)) : List α :=
  script.flatMap fun e => if e.kind = .delete then [] else e.items

variable [DecidableEq α]

/-- The number of items that two lists have in common at their start. -/
def commonLength : List α → List α → Nat
  | a :: as, b :: bs => if a = b then commonLength as bs + 1 else 0
  | _, _ => 0

/-- The number of items that two lists have in common at their end. -/
def commonTailLength (as bs : List α) : Nat := commonLength as.reverse bs.reverse

/-- The first place at which `piece` occurs in a list. -/
def find? (piece : List α) : List α → Option Nat
  | [] => if piece.isEmpty then some 0 else none
  | a :: as =>
    if commonLength piece (a :: as) = piece.length then some 0
    else (find? piece as).map (· + 1)

/-- The places at which `piece` occurs in a list that starts at the place `start`, except
behind its last item. -/
def findAll (piece : List α) : (start : Nat) → List α → List Nat
  | _, [] => []
  | start, a :: as =>
    let rest := findAll piece (start + 1) as
    if commonLength piece (a :: as) = piece.length then start :: rest else rest

end EditScript

end ScriptTidy
