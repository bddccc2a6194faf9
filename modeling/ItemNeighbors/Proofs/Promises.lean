import ItemNeighbors.Proofs.CommonKeys
import ItemNeighbors.Similarity

/-!
# The promises of the similarities

Both similarities of the command line are symmetric to the last bit: the cursors of a join stop at
the same pairs of values, and only products commute. Both are a positive zero where two vectors
have too few common keys to go by: none for the cosine, fewer than two for the correlation.

- `Similarity.IsSymmetric`, `Similarity.VanishesOnDisjoint`: the two promises, of a function.
- `Similarity.cosineScore_isSymmetric`, `Similarity.pearsonScore_isSymmetric`,
  `Similarity.cosineScore_vanishesOnDisjoint`: who keeps which promise.
- `Similarity.pearsonScore_of_few`: the correlation over fewer than two keys.
- `Similarity.promises_kept`: what the flags of the similarities promise is so.
-/

namespace ItemNeighbors

namespace Similarity

/-- The score does not depend on the order of the vectors. -/
def IsSymmetric (f : SparseVector → SparseVector → Float) : Prop := ∀ a b, f a b = f b a

/-- Vectors without a common key score zero. -/
def VanishesOnDisjoint (f : SparseVector → SparseVector → Float) : Prop :=
  ∀ a b, (∀ key ∈ a.keys, key ∉ b.keys) → (f a b == 0.0) = true

/-! ## Scores -/

/-- The cosine is symmetric. -/
theorem cosineScore_isSymmetric (damping : Float) : IsSymmetric (cosineScore damping) := by
  intro a b
  simp only [cosineScore, SparseVector.dot_comm a b, Score.mul_comm a.norm b.norm]

/-- The cosine of vectors without a common key is positive zero. -/
theorem cosineScore_of_disjoint (damping : Float) {a b : SparseVector}
    (h : ∀ key ∈ a.keys, key ∉ b.keys) : cosineScore damping a b = 0.0 := by
  rw [cosineScore, SparseVector.dot_of_disjoint h]
  exact if_pos (by decide)

theorem cosineScore_vanishesOnDisjoint (damping : Float) :
    VanishesOnDisjoint (cosineScore damping) := by
  intro a b h
  rw [cosineScore_of_disjoint damping h]
  decide

/-- The moments of swapped pairs are swapped. -/
theorem Moments.around_swap (meanA meanB : Float) (pairs : List (Float × Float)) :
    Moments.around meanB meanA (pairs.map Prod.swap) =
      { covariance := (Moments.around meanA meanB pairs).covariance
        varianceA := (Moments.around meanA meanB pairs).varianceB
        varianceB := (Moments.around meanA meanB pairs).varianceA } := by
  induction pairs using List.reverseRecOn with
  | nil => rfl
  | append_singleton pairs pair ih =>
    simp only [Moments.around] at ih
    simp only [Moments.around, List.map_append, List.map_cons, List.map_nil, List.foldl_append,
      List.foldl_cons, List.foldl_nil, ih, Prod.fst_swap, Prod.snd_swap,
      Score.mul_comm (pair.2 - meanB)]

/-- The correlation is symmetric. -/
theorem pearsonScore_isSymmetric (shrinkage : Float) : IsSymmetric (pearsonScore shrinkage) := by
  intro a b
  have hfst : ((a.coEntries b).map Prod.swap).map (·.1) = (a.coEntries b).map (·.2) := by
    rw [List.map_map]
    rfl
  have hsnd : ((a.coEntries b).map Prod.swap).map (·.2) = (a.coEntries b).map (·.1) := by
    rw [List.map_map]
    rfl
  simp only [pearsonScore, SparseVector.coEntries_swap a b, List.length_map, hfst, hsnd,
    Moments.around_swap]
  -- what is left of the swap are the factors under the root
  rw [Score.mul_comm (Moments.around _ _ _).varianceB]

/-- The correlation over fewer than two common keys is a positive zero. -/
theorem pearsonScore_of_few (shrinkage : Float) {a b : SparseVector}
    (h : (a.commonKeys b).length < 2) : pearsonScore shrinkage a b = 0.0 := by
  rw [← SparseVector.length_coEntries] at h
  exact if_pos h

/-- **What the similarities promise is so**, for whatever values the vectors hold and whatever is
added to the denominator. Both are symmetric, as they say, to the last bit. The cosine, which says
that it is sparse, gives a positive zero to vectors without a common key, and so does the
correlation to vectors with fewer than two. -/
theorem promises_kept (damping shrinkage : Float) :
    ((cosine damping).isSymmetric = true ∧ (cosine damping).isSparse = true ∧
      (pearson shrinkage).isSymmetric = true) ∧
    ∀ (n n' : Nat) (a b : SparseVector),
      (cosine damping).score n a b = (cosine damping).score n' b a ∧
      (pearson shrinkage).score n a b = (pearson shrinkage).score n' b a ∧
      ((∀ key ∈ a.keys, key ∉ b.keys) → (cosine damping).score n a b = some 0.0) ∧
      ((a.commonKeys b).length < 2 → (pearson shrinkage).score n a b = some 0.0) := by
  refine ⟨⟨rfl, rfl, rfl⟩, fun n n' a b => ⟨?_, ?_, fun h => ?_, fun h => ?_⟩⟩
  · exact congrArg some (cosineScore_isSymmetric damping a b)
  · exact congrArg some (pearsonScore_isSymmetric shrinkage a b)
  · exact congrArg some (cosineScore_of_disjoint damping h)
  · exact congrArg some (pearsonScore_of_few shrinkage h)

/-- A common key with an infinite value and a key with a NaN that is not common do not tell against
it, and neither does a negative damping. -/
theorem promises_kept_of_infinite_value :
    let a : SparseVector := ⟨#[(1, 0.0 / 0.0), (2, 4.0)], by decide⟩
    let b : SparseVector := ⟨#[(2, 1.0 / 0.0), (3, 5.0)], by decide⟩
    let d : SparseVector := ⟨#[(7, 2.0)], by decide⟩
    (a.commonKeys b).length < 2 ∧ (pearson 0.0).score 0 a b = some 0.0 ∧
      (∀ key ∈ a.keys, key ∉ d.keys) ∧ (cosine (-8.0)).score 3 a d = some 0.0 ∧
      (cosine (-8.0)).score 3 a b = (cosine (-8.0)).score 4 b a := by
  intro a b d
  obtain ⟨-, h⟩ := promises_kept (-8.0) 0.0
  have hfew : (a.commonKeys b).length < 2 := by
    simp [a, b, SparseVector.commonKeys, SparseVector.keys, SparseVector.toList]
  have hnone : ∀ key ∈ a.keys, key ∉ d.keys := by
    simp [a, d, SparseVector.keys, SparseVector.toList]
  exact ⟨hfew, (h 0 0 a b).2.2.2 hfew, hnone, (h 3 3 a d).2.2.1 hnone, (h 3 4 a b).1⟩

end Similarity

end ItemNeighbors
