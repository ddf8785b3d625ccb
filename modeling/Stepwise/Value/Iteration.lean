import Stepwise.Value.Basic

/-!
Walking over the items of values.

A list is walked by position, so that items appended on the way are met.  Everything else is walked
as it was when the walk began.
-/

namespace Stepwise

/-- The next item of a source and the source after it; nothing if there is none. -/
def Source.next? (heap : Heap) : Source → Option (Value × Source)
  | .items [] => none
  | .items (item :: rest) => some (item, .items rest)
  | .list ref index => ((heap.list ref)[index]?).map fun item => (item, .list ref (index + 1))
  | .range _ 0 _ => none
  | .range next (remaining + 1) step =>
      some (.int next, .range (next + step) remaining step)

def rangeItems (step : Int64) : Nat → Int64 → List Value
  | 0, _ => []
  | remaining + 1, next => .int next :: rangeItems step remaining (next + step)

/-- All items that a source still has, and the source without them. -/
def Source.drain (heap : Heap) : Source → List Value × Source
  | .items rest => (rest, .items [])
  | .list ref index =>
      let items := (heap.list ref).toList.drop index
      (items, .list ref (index + items.length))
  | .range next remaining step =>
      (rangeItems step remaining next, .range next 0 step)

def Source.left (heap : Heap) : Source → Nat
  | .items rest => rest.length
  | .list ref index => (heap.list ref).size - index
  | .range _ remaining _ => remaining

/-- A walk: an iterator of its own, or an iterator on the heap that others advance too. -/
inductive Walk where
  | own (iterator : Iterator)
  | shared (ref : Nat)

namespace Walk

/-- The next item of a walk, the walk after it, and the heap, on which a shared iterator moves. -/
def next? (heap : Heap) : Walk → Option (Value × Walk × Heap)
  | .own iterator =>
      (iterator.source.next? heap).map fun (item, source) =>
        (item, .own { iterator with source := source }, heap)
  | .shared ref =>
      let iterator := heap.iterator ref
      (iterator.source.next? heap).map fun (item, source) =>
        (item, .shared ref, heap.setIterator ref { iterator with source := source })

def left (heap : Heap) : Walk → Nat
  | .own iterator => iterator.source.left heap
  | .shared ref => (heap.iterator ref).source.left heap

def drain (heap : Heap) : Walk → List Value × Heap
  | .own iterator => ((iterator.source.drain heap).1, heap)
  | .shared ref =>
      let iterator := heap.iterator ref
      let (items, source) := iterator.source.drain heap
      (items, heap.setIterator ref { iterator with source := source })

def toValue (heap : Heap) : Walk → Value × Heap
  | .own iterator => heap.newIterator iterator
  | .shared ref => (.iterator ref, heap)

end Walk

def Value.walk? (heap : Heap) : Value → Option (Walk × Heap)
  | .list ref => some (.own ⟨.list, .list ref 0⟩, heap)
  | .tuple _ items => some (.own ⟨.tuple, .items items⟩, heap)
  | .str content =>
      some (.own ⟨.str, .items (content.toList.map fun c => .str c.toString)⟩, heap)
  | .dict ref =>
      let (keys, heap) := keysToValues heap (heap.dict ref).keys
      some (.own ⟨.dict, .items keys⟩, heap)
  | .range values =>
      some (.own ⟨.range, .range values.start values.length values.step⟩, heap)
  | .iterator ref => some (.shared ref, heap)
  | _ => Option.none

/-- The items of a value, if it has items. -/
def Value.items? (heap : Heap) (value : Value) : Option (List Value × Heap) :=
  (value.walk? heap).map fun (walk, heap) => walk.drain heap

end Stepwise
