import Mathlib.Data.Finset.Card
import ItemNeighbors.Proofs.Lookups

/-!
# Frozen accumulators

A vector can be made of pairs in one go, or pairs can be put into an accumulator one after the
other until it is frozen. Either way the last pair of a key counts, so the vectors are the same.
In which order the accumulator lists its entries makes no difference, and neither does a sort that
is not stable: no key is listed twice.

- `RatingAccumulator.getElem?_ofPairs`: what an accumulator holds after some pairs.
- `RatingAccumulator.listed_sorted_iff`: freezing is the only way to list the entries in order.
- `RatingAccumulator.freeze_ofPairs`: both ways give the same vector.
- `SparseVector.ofPairs_agrees`: this, and what that vector is.
-/

namespace ItemNeighbors

namespace SparseVector

variable {pairs : List Entry} {key : UInt64}

/-- The keys of a vector are those of the pairs it was made of. -/
theorem mem_keys_ofPairs : key ∈ (ofPairs pairs).keys ↔ key ∈ pairs.map (·.1) := by
  rw [mem_keys_iff, ← Option.isSome_iff_exists, get?_ofPairs]
  simp

/-- A vector stores one entry for each key that its pairs have. -/
theorem size_ofPairs (pairs : List Entry) :
    (ofPairs pairs).size = (pairs.map (·.1)).toFinset.card := by
  have hkeys : (ofPairs pairs).keys.toFinset = (pairs.map (·.1)).toFinset := by
    ext key
    rw [List.mem_toFinset, List.mem_toFinset, mem_keys_ofPairs]
  calc (ofPairs pairs).size
      = (ofPairs pairs).keys.length := by simp [size, keys, toList]
    _ = (ofPairs pairs).keys.toFinset.card :=
        (List.toFinset_card_of_nodup (nodup_keys _)).symm
    _ = (pairs.map (·.1)).toFinset.card := by rw [hkeys]

end SparseVector

namespace RatingAccumulator

/-- Of the pairs of a key, the one that was put in last counts. -/
theorem getElem?_ofPairs (pairs : List Entry) (key : UInt64) :
    (ofPairs pairs)[key]? = (pairs.findRev? (·.1 == key)).map (·.2) := by
  induction pairs using List.reverseRecOn with
  | nil => simp [ofPairs]
  | append_singleton pairs pair ih =>
    have hstep : ofPairs (pairs ++ [pair]) = (ofPairs pairs).insert pair.1 pair.2 := by
      simp [ofPairs]
    rw [hstep, Std.HashMap.getElem?_insert, ih, findRev?_concat]
    by_cases hkey : pair.1 = key <;> simp [hkey]

/-- Both ways to make a vector give the same. -/
theorem freeze_ofPairs (pairs : List Entry) :
    (ofPairs pairs).freeze = SparseVector.ofPairs pairs := by
  apply SparseVector.ext_get?
  intro key
  rw [get?_freeze, getElem?_ofPairs, SparseVector.get?_ofPairs]

theorem toList_freeze_perm (acc : RatingAccumulator) : acc.freeze.toList.Perm acc.toList := by
  rw [SparseVector.toList, freeze, List.toList_toArray]
  exact List.mergeSort_perm _ _

/-- However the entries are listed and sorted, in ascending order they are those of the frozen
vector. -/
theorem listed_sorted_iff (acc : RatingAccumulator) (listed : List Entry) :
    listed.Perm acc.toList ∧ listed.Pairwise (·.1 ≤ ·.1) ↔ listed = acc.freeze.toList := by
  constructor
  · rintro ⟨hperm, hle⟩
    have hne : listed.Pairwise (·.1 ≠ ·.1) :=
      hperm.symm.pairwise acc.pairwise_toList fun h => h.symm
    have hlt : listed.Pairwise (·.1 < ·.1) :=
      (hle.and hne).imp fun ⟨hle, hne⟩ => UInt64.lt_of_le_of_ne hle hne
    exact (hperm.trans acc.toList_freeze_perm.symm).eq_of_pairwise
      (fun a b _ _ hab hba => absurd hba (UInt64.lt_asymm hab)) hlt acc.freeze.ascending
  · rintro rfl
    exact ⟨acc.toList_freeze_perm, acc.freeze.ascending.imp UInt64.le_of_lt⟩

end RatingAccumulator

namespace SparseVector

/-- **Both ways to make a vector of pairs agree**, for all pairs, with keys repeated and ordered as
they may be and whatever the order in which the accumulator lists its entries. The keys ascend
strictly, beside their values. There are as many as the pairs have different keys and as the
accumulator has entries, and a look-up finds the value of the last pair of a key. -/
theorem ofPairs_agrees (pairs : List Entry) :
    let v := ofPairs pairs
    let acc := RatingAccumulator.ofPairs pairs
    acc.freeze = v ∧
      (∀ listed : List Entry,
        listed.Perm acc.toList ∧ listed.Pairwise (·.1 ≤ ·.1) ↔ listed = v.toList) ∧
      v.keys.Pairwise (· < ·) ∧ v.keys.length = v.values.length ∧
      v.keys.zip v.values = v.toList ∧
      v.size = (pairs.map (·.1)).toFinset.card ∧ v.size = acc.size ∧
      ∀ key, v.get? key = (pairs.findRev? (·.1 == key)).map (·.2) ∧
        (v.containsKey key = true ↔ key ∈ pairs.map (·.1)) := by
  intro v acc
  have hfreeze : acc.freeze = v := RatingAccumulator.freeze_ofPairs pairs
  refine ⟨hfreeze, fun listed => ?_, v.pairwise_keys, ?_, ?_, size_ofPairs pairs, ?_,
    fun key => ⟨?_, ?_⟩⟩
  · rw [← hfreeze]
    exact acc.listed_sorted_iff listed
  · rw [keys, values, List.length_map, List.length_map]
  · exact (List.zip_of_prod rfl rfl).symm
  · rw [← hfreeze]
    exact acc.size_freeze
  · exact get?_ofPairs pairs key
  · exact containsKey_iff.trans mem_keys_ofPairs

end SparseVector

end ItemNeighbors
