import ItemNeighbors.Rating

/-!
# Neighbors

- `Neighbor`: an item beside another one, with the score of the pair.
- `Neighbor.outranks`: one neighbor has the strictly higher score.
- `Neighbor.compare`: the order of neighbors, reversed, so that the greatest has the lowest score.
-/

namespace ItemNeighbors

/-- A neighbor of an item and its similarity score. -/
structure Neighbor where
  item : ItemId
  score : Float
deriving DecidableEq

namespace Neighbor

/-- Neighbors are equal if items and scores are; a score that is no number equals nothing. -/
instance : BEq Neighbor := ⟨fun a b => a.item == b.item && a.score == b.score⟩

/-- Whether `a` has a higher score than `b`. Nothing outranks a score that is no number, and such
a score outranks nothing. -/
def outranks (a b : Neighbor) : Bool := b.score < a.score

/-- The order of neighbors: the higher score comes first. Scores that cannot be told apart are
equal, which includes those that are no number. -/
def compare (a b : Neighbor) : Ordering :=
  if b.outranks a then .gt
  else if a.outranks b then .lt
  else .eq

end Neighbor

end ItemNeighbors
