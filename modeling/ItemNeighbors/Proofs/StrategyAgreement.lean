import ItemNeighbors.Proofs.Promises
import ItemNeighbors.Proofs.RowOffers

/-!
# The four strategies agree

A strategy makes use of a promise of the similarity. If the promise is kept, the shortcut cannot be
seen in the matrix: every row is offered the same neighbors in the same order, so even ties between
equal scores are decided alike.

- `Strategy.runOn`: what a run of a strategy returns.
- `Strategy.candidate_eq_of_isSymmetric`: a symmetric similarity does not show in which direction
  it was asked.
- `Strategy.candidate_eq_of_vanishesOnDisjoint`: a sparse similarity does not show which pairs were
  left out.
- `Strategy.candidate_eq_of_kept`: what a row is offered if all promises are kept.
- `Strategy.runs_agree`: the agreement of the matrices.
-/

namespace ItemNeighbors

namespace Strategy

open Similarity (IsSymmetric VanishesOnDisjoint)

variable {s s' : Strategy} {f : SparseVector → SparseVector → Float} {c : BuildContext}
  {t : Truncation} {row other : ItemId}

/-- What a run of a strategy returns, with the accumulator made for the universe of the context. -/
def runOn (s : Strategy) (sim : Similarity) (c : BuildContext) (t : Truncation) (j : Journal) :
    Except BuildFailure SimilarityMatrix :=
  ((s.buildMatrix sim c (t.factory c.items)).run j).1

/-- With a symmetric similarity the direction of a question does not matter. -/
theorem rowScore_eq_of_isSymmetric (hf : IsSymmetric f) :
    s.rowScore f c row other = f (c.vectorOf row) (c.vectorOf other) := by
  rw [rowScore]
  split
  · exact hf _ _
  · rfl

/-- Strategies that join the same items offer the same, if the similarity is symmetric. -/
theorem candidate_eq_of_isSymmetric (hf : IsSymmetric f) (hsparse : s.isSparse = s'.isSparse) :
    s.candidate f c t row other = s'.candidate f c t row other := by
  have hjoins : s.joins c row other = s'.joins c row other := by
    rw [joins, joins, hsparse]
  rw [candidate, candidate, hjoins, rowScore_eq_of_isSymmetric hf, rowScore_eq_of_isSymmetric hf]

/-- A pair without a common user scores zero in either direction. -/
theorem rowScore_of_not_overlaps (hf : VanishesOnDisjoint f)
    (h : (c.vectorOf row).overlaps (c.vectorOf other) = false) :
    (s.rowScore f c row other == 0.0) = true := by
  have hdisjoint : ∀ key ∈ (c.vectorOf row).keys, key ∉ (c.vectorOf other).keys := by
    intro key hrow hother
    rw [SparseVector.overlaps_iff.mpr ⟨key, hrow, hother⟩] at h
    cases h
  rw [rowScore]
  split
  · exact hf _ _ fun key hother hrow => hdisjoint key hrow hother
  · exact hf _ _ hdisjoint

/-- What a sparse strategy leaves out does not exceed a threshold that is not negative. -/
theorem candidate_eq_of_vanishesOnDisjoint (hf : VanishesOnDisjoint f)
    (ht : ¬ t.threshold < 0.0) (hsym : s.isSymmetric = s'.isSymmetric) :
    s.candidate f c t row other = s'.candidate f c t row other := by
  have hscore : s.rowScore f c row other = s'.rowScore f c row other := by
    rw [rowScore, rowScore, hsym]
  by_cases hover : (c.vectorOf row).overlaps (c.vectorOf other) = true
  · have hjoins : s.joins c row other = s'.joins c row other := by
      simp [joins, hover]
    rw [candidate, candidate, hjoins, hscore]
  · -- the pair may be scored or not, its zero is kept out of the row either way
    have hlow : ¬ t.threshold < s.rowScore f c row other :=
      Score.not_lt_of_beq_zero ht
        (rowScore_of_not_overlaps hf (Bool.eq_false_iff.mpr hover))
    rw [candidate, candidate, if_neg fun h => hlow h.2, if_neg fun h => hlow (hscore ▸ h.2)]

/-- A strategy whose promises are kept offers a row every other item whose score exceeds the
threshold. -/
theorem candidate_eq_of_kept (hsym : s.isSymmetric = true → IsSymmetric f)
    (hsparse : s.isSparse = true → VanishesOnDisjoint f ∧ ¬ t.threshold < 0.0) :
    s.candidate f c t row other =
      if other ≠ row ∧ t.threshold < f (c.vectorOf row) (c.vectorOf other) then
        some ⟨other, f (c.vectorOf row) (c.vectorOf other)⟩
      else none := by
  have hsimple : simple.candidate f c t row other =
      if other ≠ row ∧ t.threshold < f (c.vectorOf row) (c.vectorOf other) then
        some ⟨other, f (c.vectorOf row) (c.vectorOf other)⟩
      else none := by
    simp [candidate, joins, rowScore, isSparse, isSymmetric]
  rw [← hsimple]
  cases s with
  | simple => rfl
  | symmetric => exact candidate_eq_of_isSymmetric (hsym rfl) rfl
  | sparse =>
    exact candidate_eq_of_vanishesOnDisjoint (hsparse rfl).1 (hsparse rfl).2 rfl
  | sparseSymmetric =>
    -- first the pairs that were left out come back, then the directions
    have hdense : sparseSymmetric.candidate f c t row other = symmetric.candidate f c t row other :=
      candidate_eq_of_vanishesOnDisjoint (hsparse rfl).1 (hsparse rfl).2 rfl
    exact hdense.trans (candidate_eq_of_isSymmetric (hsym rfl) rfl)

/-- The run of a function on a context that was frozen with item sets. -/
theorem runOn_ofFunction {snapshot : Snapshot} (h : c.Frozen snapshot true)
    (isSparse isSymmetric : Bool) (j : Journal) :
    s.runOn (.ofFunction f isSparse isSymmetric) c t j = .ok (s.builtMatrix f c t) := by
  rw [runOn, h.run_buildMatrix_ofFunction fun _ => rfl]

/-- **The strategies agree** on every frozen transposition, whatever the neighborhood size. If the
similarity is symmetric, scoring each pair once gives the matrix of scoring both directions. If it
is zero for vectors without a common key and the threshold is not negative, scoring the pairs with
a common user gives the matrix of scoring all pairs. -/
theorem runs_agree {snapshot : Snapshot} {items : ItemSet} {tr : TransposedRatings}
    (htr : snapshot.transpose items true = .ok tr) (t : Truncation)
    (f : SparseVector → SparseVector → Float) (isSparse isSymmetric : Bool) (j j' : Journal) :
    let run := fun (s : Strategy) (j : Journal) =>
      s.runOn (.ofFunction f isSparse isSymmetric) (.freeze items tr) t j
    (IsSymmetric f → ∃ m, run .symmetric j = .ok m ∧ run .simple j' = .ok m) ∧
      (VanishesOnDisjoint f → ¬ t.threshold < 0.0 →
        (∃ m, run .sparse j = .ok m ∧ run .simple j' = .ok m) ∧
          ∃ m, run .sparseSymmetric j = .ok m ∧ run .symmetric j' = .ok m) := by
  have hfrozen := BuildContext.frozen_of_transpose htr
  have hrun : ∀ (s : Strategy) (j : Journal),
      s.runOn (.ofFunction f isSparse isSymmetric) (.freeze items tr) t j =
        .ok (s.builtMatrix f (.freeze items tr) t) := fun s j =>
    runOn_ofFunction hfrozen isSparse isSymmetric j
  -- leaving out pairs is seen by no row, so the matrices are the same
  have hsame : ∀ {s s' : Strategy}, VanishesOnDisjoint f → ¬ t.threshold < 0.0 →
      s'.isSymmetric = s.isSymmetric →
      s'.builtMatrix f (.freeze items tr) t = s.builtMatrix f (.freeze items tr) t :=
    fun hf ht hsym => builtMatrix_congr fun _ _ _ _ =>
      candidate_eq_of_vanishesOnDisjoint hf ht hsym
  intro run
  refine ⟨fun hf => ⟨_, hrun .symmetric j, ?_⟩, fun hf ht => ⟨⟨_, hrun .sparse j, ?_⟩,
    _, hrun .sparseSymmetric j, ?_⟩⟩
  · have hdirection : simple.builtMatrix f (.freeze items tr) t =
        symmetric.builtMatrix f (.freeze items tr) t :=
      builtMatrix_congr fun _ _ _ _ => candidate_eq_of_isSymmetric hf rfl
    exact (hrun .simple j').trans (congrArg Except.ok hdirection)
  · exact (hrun .simple j').trans (congrArg Except.ok (hsame hf ht rfl))
  · exact (hrun .symmetric j').trans (congrArg Except.ok (hsame hf ht rfl))

/-- All four give the same matrix for the cosine of three items, two of them with a common user. -/
theorem runs_agree_of_cosine :
    let snapshot : Snapshot :=
      { userIds := [7, 8]
        itemIds := [1, 2, 3]
        ratingsOf := fun user =>
          if user = 7 then [⟨7, 1, 4.0⟩, ⟨7, 2, 3.0⟩] else [⟨8, 3, 5.0⟩] }
    ∃ tr, snapshot.transpose (.ofList [1, 2, 3]) true = .ok tr ∧ ∃ m, ∀ s : Strategy,
      s.runOn (.cosine 0.0) (.freeze (.ofList [1, 2, 3]) tr) ⟨1, 0.0⟩ (.start 0) = .ok m := by
  intro snapshot
  have hknown : snapshot.stray? (.ofList [1, 2, 3]) = none := by
    rw [Snapshot.stray?_eq_none_iff]
    simp [snapshot, ItemSet.contains_iff]
  obtain ⟨tr, htr, -⟩ := Snapshot.exists_transpose_eq_ok hknown true
  have h := runs_agree htr ⟨1, 0.0⟩ (Similarity.cosineScore 0.0) true true (.start 0) (.start 0)
  obtain ⟨m, hsymmetric, hsimple⟩ := h.1 (Similarity.cosineScore_isSymmetric 0.0)
  obtain ⟨⟨m₁, hsparse, hsimple₁⟩, m₂, hboth, hsymmetric₂⟩ :=
    h.2 (Similarity.cosineScore_vanishesOnDisjoint 0.0) (by decide)
  obtain rfl : m = m₁ := Except.ok.inj (hsimple.symm.trans hsimple₁)
  obtain rfl : m = m₂ := Except.ok.inj (hsymmetric.symm.trans hsymmetric₂)
  refine ⟨tr, htr, m, fun s => ?_⟩
  cases s with
  | simple => exact hsimple
  | symmetric => exact hsymmetric
  | sparse => exact hsparse
  | sparseSymmetric => exact hboth

end Strategy

end ItemNeighbors
