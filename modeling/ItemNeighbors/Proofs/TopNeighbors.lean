import ItemNeighbors.Proofs.AccumulatorCalls

/-!
# The rows of an accumulator hold the best of what was put into them

Whatever an accumulator is called with, each of its rows holds the best of the puts for its item. A
put succeeds if both of its items are in the universe, and of a call in both directions both puts do
or neither.

- `NeighborAccumulator.rows_hold_top`: what the rows hold in the end.
-/

namespace ItemNeighbors

namespace NeighborAccumulator

/-- **Whatever is put into an accumulator, its rows hold the best of it**: there is one row for each
member of the universe, in ascending order, with the best of the puts between members that were for
its item, named another item and exceed the threshold. -/
theorem rows_hold_top (t : Truncation) (items : ItemSet) (calls : List AccumulatorCall) :
    List.Forall₂ (fun item entry => entry.1 = item ∧
        IsTop t.neighborhoodSize (t.offersTo item (calls.flatMap (·.puts items))) entry.2)
      items.toList (calls.foldl call (create t items)).toMatrix.toList := by
  rw [foldl_call_create, toList_toMatrix_after, List.forall₂_map_right_iff, List.forall₂_same]
  intro item _
  exact ⟨rfl, t.isTop_rowAfter item _⟩

end NeighborAccumulator

end ItemNeighbors
