import ItemNeighbors.ItemSet
import ItemNeighbors.Neighbor

/-!
# Similarity matrices

A similarity matrix holds one row of neighbors per item of its universe, best neighbors first.

- `SimilarityMatrix.neighbors?`: the row of an item.
- `SimilarityMatrix.get?`: the score of a pair.
- `SimilarityMatrix.toList`: all rows with their items, in ascending item order.
-/

namespace ItemNeighbors

/-- One row per member of the item set, in its order. -/
structure SimilarityMatrix where
  items : ItemSet
  rows : Array (Array Neighbor)
  size_rows : rows.size = items.size
deriving DecidableEq

namespace SimilarityMatrix

/-- How many rows there are. -/
def size (m : SimilarityMatrix) : Nat := m.rows.size

/-- Whether there is no row. -/
def isEmpty (m : SimilarityMatrix) : Bool := m.rows.isEmpty

/-- How many scores the rows hold together. -/
def scoreCount (m : SimilarityMatrix) : Nat :=
  m.rows.foldl (fun count row => count + row.size) 0

/-- The neighbors of an item, nothing for an item outside the universe. -/
def neighbors? (m : SimilarityMatrix) (item : ItemId) : Option (List Neighbor) :=
  (m.items.indexOf? item).bind fun index => m.rows[index]?.map Array.toList

/-- The score of the first neighbor of `item` that is `other`. -/
def get? (m : SimilarityMatrix) (item other : ItemId) : Option Float :=
  (m.neighbors? item).bind fun row =>
    (row.find? fun neighbor => neighbor.item == other).map (·.score)

/-- The items with their rows, in ascending order of the items. -/
def toList (m : SimilarityMatrix) : List (ItemId × List Neighbor) :=
  m.items.toList.zip (m.rows.toList.map Array.toList)

/-- Every member of the universe has a row. -/
theorem neighbors?_isSome_iff {m : SimilarityMatrix} {item : ItemId} :
    (m.neighbors? item).isSome = true ↔ item ∈ m.items.toList := by
  rw [← ItemSet.contains_iff, ItemSet.contains, neighbors?]
  cases h : m.items.indexOf? item with
  | none => simp
  | some p =>
    have hp : p < m.rows.size := by rw [m.size_rows]; exact ItemSet.indexOf?_lt h
    simp [hp]

end SimilarityMatrix

end ItemNeighbors
