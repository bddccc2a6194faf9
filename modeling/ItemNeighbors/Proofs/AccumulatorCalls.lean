import ItemNeighbors.Proofs.MatrixShape
import ItemNeighbors.Proofs.ScoreTexts

/-!
# Calls of an accumulator

An accumulator may be called with anything. A call that fails leaves it as it was, so what it holds
after some calls is what it holds after the puts of those that succeeded.

- `NeighborAccumulator.call`: what a call makes of an accumulator.
- `NeighborAccumulator.foldl_call_create`: an accumulator after any calls is one after some puts.
- `NeighborAccumulator.isKept_of_mem`: its rows hold no score that is no number and no negative
  infinity.
-/

namespace ItemNeighbors

/-- A call that files a score. -/
inductive AccumulatorCall where
  /-- In one direction. -/
  | put (item other : ItemId) (score : Float)
  /-- In both directions. -/
  | putSymmetric (item other : ItemId) (score : Float)

/-- The puts of a call that succeeds, which it does between two members of the universe. -/
def AccumulatorCall.puts (items : ItemSet) : AccumulatorCall → List Put
  | .put item other score =>
    if item ∈ items.toList ∧ other ∈ items.toList then [(item, other, score)] else []
  | .putSymmetric item other score =>
    if item ∈ items.toList ∧ other ∈ items.toList then
      [(item, other, score), (other, item, score)]
    else []

namespace NeighborAccumulator

/-- What a call makes of an accumulator, whether it succeeds or not. -/
def call (acc : NeighborAccumulator) : AccumulatorCall → NeighborAccumulator
  | .put item other score => (acc.attempt item other score).1
  | .putSymmetric item other score => (acc.attemptSymmetric item other score).1

variable {t : Truncation} {items : ItemSet} {puts : List Put} {item : ItemId}

/-- After one more call the accumulator has taken in the puts of the call. -/
theorem call_after (c : AccumulatorCall) :
    (after t items puts).call c = after t items (puts ++ c.puts items) := by
  cases c with
  | put item other score =>
    by_cases hmem : item ∈ items.toList ∧ other ∈ items.toList
    · rw [AccumulatorCall.puts, if_pos hmem, call, attempt_after hmem.1 hmem.2]
    · rw [AccumulatorCall.puts, if_neg hmem, call, attempt_of_not_mem hmem, List.append_nil]
  | putSymmetric item other score =>
    by_cases hmem : item ∈ items.toList ∧ other ∈ items.toList
    · rw [AccumulatorCall.puts, if_pos hmem, call, attemptSymmetric_after hmem.1 hmem.2]
    · rw [AccumulatorCall.puts, if_neg hmem, call, attemptSymmetric_of_not_mem hmem,
        List.append_nil]

/-- An accumulator after any calls is one after some puts. -/
theorem foldl_call_after (calls : List AccumulatorCall) :
    calls.foldl call (after t items puts) =
      after t items (puts ++ calls.flatMap (·.puts items)) := by
  induction calls generalizing puts with
  | nil => rw [List.flatMap_nil, List.append_nil, List.foldl_nil]
  | cons c calls ih =>
    rw [List.foldl_cons, call_after, ih, List.flatMap_cons, List.append_assoc]

theorem foldl_call_create (calls : List AccumulatorCall) :
    calls.foldl call (create t items) = after t items (calls.flatMap (·.puts items)) := by
  rw [create_eq_after, foldl_call_after, List.nil_append]

/-- Every score in a row exceeds the threshold. -/
theorem threshold_lt_of_mem {row : List Neighbor} {n : Neighbor}
    (hrow : (item, row) ∈ (after t items puts).toMatrix.toList) (hn : n ∈ row) :
    t.threshold < n.score := by
  have hitem : item ∈ items.toList := by
    have hmem := List.mem_map_of_mem (f := (·.1)) hrow
    rwa [SimilarityMatrix.map_fst_toList] at hmem
  have hlookup := SimilarityMatrix.mem_toList_iff.mp hrow
  rw [neighbors?_toMatrix_after hitem] at hlookup
  obtain rfl := Option.some.inj hlookup
  exact (Truncation.of_mem_offersTo ((t.isTop_rowAfter item puts).mem_offers hn)).2.2

/-- A row has only scores whose text is their own. -/
theorem isKept_of_mem (calls : List AccumulatorCall) {row : List Neighbor} {n : Neighbor}
    (hrow : (item, row) ∈ (calls.foldl call (create t items)).toMatrix.toList) (hn : n ∈ row) :
    Report.IsKept n.score := by
  rw [foldl_call_create] at hrow
  exact Report.isKept_of_lt (threshold_lt_of_mem hrow hn)

end NeighborAccumulator

end ItemNeighbors
