import ItemNeighbors.BuildError
import ItemNeighbors.Neighbor.Heap
import ItemNeighbors.SimilarityMatrix

/-!
# Matrices under construction

Scores arrive pair by pair. An accumulator takes them in and makes a matrix of them; the one that is
given here keeps only the best of each row.

- `ScoreAccumulator`: what an accumulator can do.
- `Truncation`: how many neighbors a row keeps, and the threshold that a score has to exceed.
- `NeighborAccumulator.attempt`, `NeighborAccumulator.put`: files a score under its first item.
- `NeighborAccumulator.putSymmetric`: files a score in both directions.
- `NeighborAccumulator.toMatrix`: the finished matrix.
-/

namespace ItemNeighbors

/-- Something that scores can be put into, and a matrix taken out of at the end. -/
class ScoreAccumulator (α : Type) where
  /-- Files a score under its first item: what is there afterwards, even if the put fails, and
  whether it fails. -/
  attempt : α → ItemId → ItemId → Float → α × Except BuildError Unit
  /-- The matrix of what has been put in. -/
  toMatrix : α → SimilarityMatrix

/-- A put for those who have no use for what a failed one leaves. -/
def ScoreAccumulator.put {α : Type} [ScoreAccumulator α] (acc : α) (item other : ItemId)
    (score : Float) : Except BuildError α :=
  let (after, result) := attempt acc item other score
  result.map fun _ => after

/-- What a row keeps of the scores put into it. -/
structure Truncation where
  /-- How many neighbors a row keeps at most. -/
  neighborhoodSize : Nat
  /-- Only scores above this one are kept. -/
  threshold : Float

/-- Keeps every score above zero: no row can reach this size. -/
def Truncation.unbounded : Truncation := ⟨UInt64.size - 1, 0.0⟩

/-- The rows of a matrix while scores arrive: one heap per member of the item set. -/
structure NeighborAccumulator where
  items : ItemSet
  rows : Array (Array Neighbor)
  truncation : Truncation
  size_rows : rows.size = items.size

/-- Makes the accumulator for the universe of a build, by default one that truncates. -/
abbrev AccumulatorFactory (α : Type := NeighborAccumulator) := ItemSet → α

namespace NeighborAccumulator

/-- The accumulator with an empty row for every item. -/
def create (truncation : Truncation) (items : ItemSet) : NeighborAccumulator where
  items := items
  rows := Array.replicate items.size #[]
  truncation := truncation
  size_rows := Array.size_replicate

/-- Whether a row has a use for the score of a pair. A score that is no number exceeds no
threshold. -/
def accepts (acc : NeighborAccumulator) (item other : ItemId) (score : Float) : Bool :=
  item != other && acc.truncation.threshold < score && acc.truncation.neighborhoodSize != 0

/-- Files a score under `item`. Both items have to be in the universe, whatever the score. -/
def attempt (acc : NeighborAccumulator) (item other : ItemId) (score : Float) :
    NeighborAccumulator × Except BuildError Unit :=
  match acc.items.indexOf? item with
  | none => (acc, .error (.itemOutsideUniverse item))
  | some index =>
    if !acc.items.contains other then (acc, .error (.itemOutsideUniverse other))
    else if acc.accepts item other score then
      let bound := acc.truncation.neighborhoodSize
      let filed : NeighborAccumulator := { acc with
        rows := acc.rows.modify index fun row => NeighborHeap.offer bound row ⟨other, score⟩
        size_rows := by rw [Array.size_modify]; exact acc.size_rows }
      (filed, .ok ())
    else (acc, .ok ())

/-- Files a score in both directions. The second put is only made if the first one succeeds, and
the first one is not taken back if the second one fails. -/
def attemptSymmetric (acc : NeighborAccumulator) (item other : ItemId) (score : Float) :
    NeighborAccumulator × Except BuildError Unit :=
  match acc.attempt item other score with
  | (half, .ok ()) => half.attempt other item score
  | (half, .error e) => (half, .error e)

/-- Files a score under `item`, for those who have no use for what a failed put leaves. -/
def put (acc : NeighborAccumulator) (item other : ItemId) (score : Float) :
    Except BuildError NeighborAccumulator :=
  let (after, result) := acc.attempt item other score
  result.map fun _ => after

/-- Files a score in both directions, for those who have no use for what a failed put leaves. -/
def putSymmetric (acc : NeighborAccumulator) (item other : ItemId) (score : Float) :
    Except BuildError NeighborAccumulator :=
  let (after, result) := acc.attemptSymmetric item other score
  result.map fun _ => after

/-- The matrix of the rows as they are, best neighbors first. -/
def toMatrix (acc : NeighborAccumulator) : SimilarityMatrix where
  items := acc.items
  rows := acc.rows.map NeighborHeap.drain
  size_rows := by rw [Array.size_map]; exact acc.size_rows

instance : ScoreAccumulator NeighborAccumulator := ⟨attempt, toMatrix⟩

end NeighborAccumulator

/-- The factory of accumulators that truncate in this way. -/
def Truncation.factory (t : Truncation) : AccumulatorFactory :=
  NeighborAccumulator.create t

end ItemNeighbors
