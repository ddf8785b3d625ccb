import Stepwise.Run.Action

/-!
Stable sorting of items by scores.

Scores are only ever asked which of two is less, so that two that have no order end the sort with
the error of that question.
-/

namespace Stepwise.Run

/-- An item to be sorted. -/
structure Scored where
  score : Value
  item : Value

namespace Scored

/-- Whether an entry of the right half goes before one of the left half. -/
def goesFirst (heap : Heap) (depth : Nat) (descending : Bool) (left right : Scored) :
    Query Bool :=
  if descending then Query.less heap depth left.score right.score
  else Query.less heap depth right.score left.score

/-- Two sorted lists merged; of two entries that are equal the left one goes first. -/
def merge (heap : Heap) (depth : Nat) (descending : Bool) :
    List Scored → List Scored → Query (List Scored)
  | [], right => return right
  | left, [] => return left
  | a :: left, b :: right => do
      if ← goesFirst heap depth descending a b then
        return b :: (← merge heap depth descending (a :: left) right)
      else
        return a :: (← merge heap depth descending left (b :: right))
termination_by left right => left.length + right.length

/-- The entries in ascending order of their scores, or in descending order. -/
def sort (heap : Heap) (depth : Nat) (descending : Bool) (entries : List Scored) :
    Query (List Scored) :=
  if entries.length ≤ 1 then return entries
  else do
    let middle := entries.length / 2
    let left ← sort heap depth descending (entries.take middle)
    let right ← sort heap depth descending (entries.drop middle)
    merge heap depth descending left right
termination_by entries.length
decreasing_by
  · simp only [List.length_take]
    omega
  · simp only [List.length_drop]
    omega

end Scored

end Stepwise.Run
