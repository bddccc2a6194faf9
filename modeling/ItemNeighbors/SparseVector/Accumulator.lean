import Std.Data.HashMap
import ItemNeighbors.Rating
import ItemNeighbors.SparseVector

/-!
# Vectors under construction

While ratings are read, the vector of an item is kept as a hash map from users to values.
When no more ratings come it is frozen.

- `RatingAccumulator.ofPairs`: pairs inserted one after the other, a later one replaces an
  earlier one of the same user.
- `RatingAccumulator.freeze`: the vector of the collected entries.
-/

namespace ItemNeighbors

/-- The ratings of one item so far: the latest value of each user. -/
abbrev RatingAccumulator := Std.HashMap UserId Float

namespace RatingAccumulator

/-- Inserts pairs one after the other. -/
def ofPairs (pairs : List Entry) : RatingAccumulator :=
  pairs.foldl (fun acc pair => acc.insert pair.1 pair.2) ∅

/-- Sorting entries with distinct keys makes the keys strictly ascending. -/
theorem sortedByKey_ascending {entries : List Entry}
    (h : entries.Pairwise (·.1 ≠ ·.1)) :
    (SparseVector.sortedByKey entries).Pairwise (·.1 < ·.1) := by
  have hne : (SparseVector.sortedByKey entries).Pairwise (·.1 ≠ ·.1) :=
    (List.mergeSort_perm entries _).symm.pairwise h fun hxy => hxy.symm
  exact ((SparseVector.pairwise_sortedByKey entries).and hne).imp fun ⟨hle, hne⟩ =>
    UInt64.lt_of_le_of_ne hle hne

/-- The keys of a hash map are listed once each. -/
theorem pairwise_toList (acc : RatingAccumulator) : acc.toList.Pairwise (·.1 ≠ ·.1) :=
  acc.distinct_keys_toList.imp fun h => by simpa using h

/-- The vector of the collected entries. The order in which the hash map lists them does not
matter, because they are sorted and no key occurs twice. -/
def freeze (acc : RatingAccumulator) : SparseVector where
  entries := (SparseVector.sortedByKey acc.toList).toArray
  ascending := sortedByKey_ascending (pairwise_toList acc)

/-- Freezing keeps the number of entries. -/
theorem size_freeze (acc : RatingAccumulator) : acc.freeze.size = acc.size := by
  simp [freeze, SparseVector.size, SparseVector.sortedByKey, Std.HashMap.length_toList]

end RatingAccumulator

end ItemNeighbors
