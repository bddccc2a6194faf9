import ItemNeighbors.Proofs.BuiltNeighborhoods
import ItemNeighbors.Proofs.MatrixShape

/-!
# Pairs that a sparse run leaves out

A sparse strategy does not score pairs without a common user, since their score is zero. If the
threshold is below zero, this shows: their zero exceeds the threshold, and still they are in no
row. A strategy that scores all pairs keeps them.

- `Rating.CoRated`: some user rated both items.
- `Strategy.get?_builtMatrix`: the scores in a matrix whose rows are long enough.
- `Builder.get?_of_cosine`: the scores in the model of the cosine, beside those of a run that
  scores all pairs.
-/

namespace ItemNeighbors

/-- Some user rated both items. -/
def Rating.CoRated (l : List Rating) (i j : ItemId) : Prop :=
  ∃ r ∈ l, ∃ r' ∈ l, r.user = r'.user ∧ r.item = i ∧ r'.item = j

namespace Strategy

variable {s : Strategy} {f : SparseVector → SparseVector → Float} {c : BuildContext}
  {t : Truncation} {row other : ItemId} {n : Neighbor}

/-! ## Rows that are long enough -/

theorem candidate_eq_some_iff :
    s.candidate f c t row other = some n ↔
      s.joins c row other = true ∧ t.threshold < s.rowScore f c row other ∧
        n = ⟨other, s.rowScore f c row other⟩ := by
  rw [candidate]
  split
  · simp [*, eq_comm]
  · rename_i h
    simp only [reduceCtorEq, false_iff]
    exact fun hall => h ⟨hall.1, hall.2.1⟩

/-- A row is offered the candidates of the items. -/
theorem mem_offered :
    n ∈ s.offered f c t row ↔
      n.item ∈ c.items.toList ∧ s.candidate f c t row n.item = some n := by
  rw [offered, List.mem_filterMap]
  constructor
  · rintro ⟨other, hother, hn⟩
    obtain ⟨-, -, rfl⟩ := candidate_eq_some_iff.mp hn
    exact ⟨hother, hn⟩
  · rintro ⟨hitem, hn⟩
    exact ⟨n.item, hitem, hn⟩

theorem nodup_offered : ((s.offered f c t row).map (·.item)).Nodup := by
  rw [offered, List.map_filterMap]
  refine (ItemSet.nodup_toList _).filterMap fun other other' item hother hother' => ?_
  obtain ⟨n, hn, rfl⟩ := Option.map_eq_some_iff.mp hother
  obtain ⟨n', hn', hitem⟩ := Option.map_eq_some_iff.mp hother'
  obtain ⟨-, -, rfl⟩ := candidate_eq_some_iff.mp hn
  obtain ⟨-, -, rfl⟩ := candidate_eq_some_iff.mp hn'
  exact hitem.symm

/-- A row that may hold all items holds all that it is offered. -/
theorem perm_offered (hk : c.items.size ≤ t.neighborhoodSize) :
    (NeighborHeap.drain (NeighborHeap.best t.neighborhoodSize (s.offered f c t row))).toList.Perm
      (s.offered f c t row) := by
  have hnum : ∀ n ∈ s.offered f c t row, n.score.isNaN = false := by
    intro n hn
    obtain ⟨-, hlt, heq⟩ := candidate_eq_some_iff.mp (mem_offered.mp hn).2
    rw [heq]
    exact Score.isNaN_eq_false_of_lt hlt
  have hoffered : (s.offered f c t row).length ≤ t.neighborhoodSize :=
    (List.length_filterMap_le _ _).trans hk
  exact Multiset.coe_eq_coe.mp ((NeighborHeap.isTop_drain_best _ hnum).coe_eq hoffered)

/-- Such a matrix has the score of every candidate. -/
theorem get?_builtMatrix (hrow : row ∈ c.items.toList) (hother : other ∈ c.items.toList)
    (hk : c.items.size ≤ t.neighborhoodSize) :
    (s.builtMatrix f c t).get? row other = (s.candidate f c t row other).map (·.score) := by
  have hperm : (NeighborHeap.drain
      (NeighborHeap.best t.neighborhoodSize (s.offered f c t row))).toList.Perm
        (s.offered f c t row) := perm_offered hk
  ext score
  rw [SimilarityMatrix.get?_eq_some_iff, neighbors?_builtMatrix hrow, Option.map_eq_some_iff]
  · simp only [Option.some.injEq, exists_eq_left', hperm.mem_iff, mem_offered]
    constructor
    · rintro ⟨-, hn⟩
      exact ⟨_, hn, rfl⟩
    · rintro ⟨n, hn, rfl⟩
      obtain ⟨-, -, rfl⟩ := candidate_eq_some_iff.mp hn
      exact ⟨hother, hn⟩
  · intro neighbors hneighbors
    rw [neighbors?_builtMatrix hrow] at hneighbors
    obtain rfl := Option.some.inj hneighbors
    exact (hperm.map _).nodup_iff.mpr nodup_offered

/-- With a symmetric similarity these are the joined items whose score exceeds the threshold. -/
theorem get?_builtMatrix_eq_some_iff (hf : Similarity.IsSymmetric f)
    (hrow : row ∈ c.items.toList) (hother : other ∈ c.items.toList)
    (hk : c.items.size ≤ t.neighborhoodSize) {score : Float} :
    (s.builtMatrix f c t).get? row other = some score ↔
      s.joins c row other = true ∧ t.threshold < f (c.vectorOf row) (c.vectorOf other) ∧
        score = f (c.vectorOf row) (c.vectorOf other) := by
  rw [get?_builtMatrix hrow hother hk, Option.map_eq_some_iff]
  simp only [candidate_eq_some_iff, rowScore_eq_of_isSymmetric hf]
  constructor
  · rintro ⟨n, ⟨hjoins, hlt, rfl⟩, rfl⟩
    exact ⟨hjoins, hlt, rfl⟩
  · rintro ⟨hjoins, hlt, rfl⟩
    exact ⟨_, ⟨hjoins, hlt, rfl⟩, rfl⟩

end Strategy

namespace Builder

open Similarity (cosineScore)

variable {l : List Rating} {c : BuildContext} {i j : ItemId}

/-! ## The model of the cosine -/

/-- The vectors of two items have a common key exactly if some user rated both. -/
theorem overlaps_iff_coRated
    (hvector : ∀ item user, (c.vectorOf item).get? user = Rating.lastValue l user item) :
    (c.vectorOf i).overlaps (c.vectorOf j) = true ↔ Rating.CoRated l i j := by
  have hkeys : ∀ item user,
      user ∈ (c.vectorOf item).keys ↔ ∃ r ∈ l, r.user = user ∧ r.item = item := by
    intro item user
    rw [SparseVector.mem_keys_iff, ← Option.isSome_iff_exists, hvector, Rating.isSome_lastValue]
  simp only [SparseVector.overlaps_iff, hkeys, Rating.CoRated]
  constructor
  · rintro ⟨user, ⟨r, hr, rfl, rfl⟩, r', hr', huser, rfl⟩
    exact ⟨r, hr, r', hr', huser.symm, rfl, rfl⟩
  · rintro ⟨r, hr, r', hr', huser, rfl, rfl⟩
    exact ⟨r.user, ⟨r, hr, rfl, rfl⟩, r', hr', huser.symm, rfl⟩

/-- Items without a common user score zero. -/
theorem cosineScore_of_not_coRated
    (hvector : ∀ item user, (c.vectorOf item).get? user = Rating.lastValue l user item)
    (h : ¬ Rating.CoRated l i j) (damping : Float) :
    cosineScore damping (c.vectorOf i) (c.vectorOf j) = 0.0 := by
  refine Similarity.cosineScore_of_disjoint damping fun key hi hj => h ?_
  exact (overlaps_iff_coRated hvector).mp (SparseVector.overlaps_iff.mpr ⟨key, hi, hj⟩)

/-- The rated items fit into a row that may hold as many. -/
theorem size_items_le_of_packed {k : Nat} (hk : (l.map (·.item)).toFinset.card ≤ k)
    (hitems : c.items = .ofList (PackedSnapshot.ofRatings l).toSnapshot.itemIds) :
    c.items.size ≤ k := by
  rw [← toFinset_items_of_packed hitems,
    List.toFinset_card_of_nodup (ItemSet.nodup_toList _)] at hk
  exact hk

/-- The model of the cosine is that of a sparse run. If the rows may hold all items, a run has all
scores above the threshold, except that a sparse one leaves out the pairs without a common user. -/
theorem exists_get?_iff (l : List Rating) (k : Nat) (t damping : Float)
    (hk : (l.map (·.item)).toFinset.card ≤ k) :
    let build := (((new.withSimilarity (.cosine damping)).withAccumulatorFactory
      (Truncation.factory ⟨k, t⟩)).withNormalizedSnapshot
        (PackedSnapshot.ofRatings l).toSnapshot).build
    ∃ c m, build.1.state = .built c ∧ build.2.result = .ok m ∧
      (∀ item user, (c.vectorOf item).get? user = Rating.lastValue l user item) ∧
      m.matrix = Strategy.sparseSymmetric.builtMatrix (cosineScore damping) c ⟨k, t⟩ ∧
      ∀ s : Strategy,
        (∀ j, s.runOn (.cosine damping) c ⟨k, t⟩ j =
          .ok (s.builtMatrix (cosineScore damping) c ⟨k, t⟩)) ∧
        ∀ i ∈ l.map (·.item), ∀ j ∈ l.map (·.item), i ≠ j → ∀ x,
          (s.builtMatrix (cosineScore damping) c ⟨k, t⟩).get? i j = some x ↔
            (s.isSparse = true → Rating.CoRated l i j) ∧
              t < cosineScore damping (c.vectorOf i) (c.vectorOf j) ∧
                x = cosineScore damping (c.vectorOf i) (c.vectorOf j) := by
  intro build
  obtain ⟨c, m, hfrozen, hitems, hstate, hok, hmatrix⟩ :=
    exists_build_of_packed l ⟨k, t⟩ (cosineScore damping) true true
  have hvector : ∀ item user, (c.vectorOf item).get? user = Rating.lastValue l user item :=
    fun item user => get?_vectorOf_of_packed hfrozen hitems
  have hsize : c.items.size ≤ k := size_items_le_of_packed hk hitems
  refine ⟨c, m, hstate, hok, hvector, hmatrix, fun s => ⟨fun j =>
    Strategy.runOn_ofFunction hfrozen true true j, ?_⟩⟩
  intro i hi j hj hne x
  have hjoins : s.joins c i j = true ↔ (s.isSparse = true → Rating.CoRated l i j) := by
    rw [← overlaps_iff_coRated hvector]
    cases hsparse : s.isSparse <;> simp [Strategy.joins, hsparse, hne.symm]
  rw [← hjoins]
  exact Strategy.get?_builtMatrix_eq_some_iff (Similarity.cosineScore_isSymmetric damping)
    ((mem_items_of_packed hitems).mpr hi) ((mem_items_of_packed hitems).mpr hj) hsize

/-- **The model of the cosine has the pairs with a common user only.** If the rows may hold all
items, it has exactly their scores above the threshold. The run that scores all pairs of the same
context has every score above the threshold, so below a threshold of zero it also has the zeros of
the pairs without a common user. -/
theorem get?_of_cosine (l : List Rating) (k : Nat) (t damping : Float)
    (hk : (l.map (·.item)).toFinset.card ≤ k) :
    let build := (((new.withSimilarity (.cosine damping)).withAccumulatorFactory
      (Truncation.factory ⟨k, t⟩)).withNormalizedSnapshot
        (PackedSnapshot.ofRatings l).toSnapshot).build
    ∃ c m all, build.1.state = .built c ∧ build.2.result = .ok m ∧
      (∀ j, Strategy.simple.runOn (.cosine damping) c ⟨k, t⟩ j = .ok all) ∧
      (∀ item user, (c.vectorOf item).get? user = Rating.lastValue l user item) ∧
      ∀ i ∈ l.map (·.item), ∀ j ∈ l.map (·.item), i ≠ j →
        let score := cosineScore damping (c.vectorOf i) (c.vectorOf j)
        (∀ x, m.matrix.get? i j = some x ↔ Rating.CoRated l i j ∧ t < score ∧ x = score) ∧
          (∀ x, all.get? i j = some x ↔ t < score ∧ x = score) ∧
            (¬ Rating.CoRated l i j → score = 0.0) := by
  intro build
  obtain ⟨c, m, hstate, hok, hvector, hmatrix, hruns⟩ := exists_get?_iff l k t damping hk
  refine ⟨c, m, _, hstate, hok, (hruns .simple).1, hvector, ?_⟩
  intro i hi j hj hne score
  refine ⟨fun x => ?_, fun x => ?_, fun h => cosineScore_of_not_coRated hvector h damping⟩
  · rw [hmatrix]
    simpa [Strategy.isSparse] using (hruns .sparseSymmetric).2 i hi j hj hne x
  · simpa [Strategy.isSparse] using (hruns .simple).2 i hi j hj hne x

/-- Below zero a row lacks the item without a common user, which the other run has. -/
theorem get?_of_cosine_of_three_items :
    let l : List Rating := [⟨1, 10, 1.0⟩, ⟨1, 20, 1.0⟩, ⟨2, 30, 1.0⟩]
    let build := (((new.withSimilarity (.cosine 0.0)).withAccumulatorFactory
      (Truncation.factory ⟨3, -0.5⟩)).withNormalizedSnapshot
        (PackedSnapshot.ofRatings l).toSnapshot).build
    ∃ c m all, build.1.state = .built c ∧ build.2.result = .ok m ∧
      Strategy.simple.runOn (.cosine 0.0) c ⟨3, -0.5⟩ (.start 0) = .ok all ∧
        m.matrix.get? 10 30 = none ∧ all.get? 10 30 = some 0.0 := by
  intro l build
  obtain ⟨c, m, all, hstate, hok, hrun, -, hget⟩ := get?_of_cosine l 3 (-0.5) 0.0 (by decide)
  obtain ⟨hsparse, hall, hzero⟩ := hget 10 (by decide) 30 (by decide) (by decide)
  have hapart : ¬ Rating.CoRated l 10 30 := by
    simp [Rating.CoRated, l]
  rw [hzero hapart] at hall
  refine ⟨c, m, all, hstate, hok, hrun _, ?_, (hall 0.0).mpr ⟨by decide, rfl⟩⟩
  rw [Option.eq_none_iff_forall_ne_some]
  exact fun x hx => hapart ((hsparse x).mp hx).1

/-- So a negative threshold does not keep every score above it: of two items with a user each, the
zero is missing. -/
theorem exists_score_missing_below_zero :
    let l : List Rating := [⟨1, 10, 1.0⟩, ⟨2, 20, 1.0⟩]
    let build := (((new.withSimilarity (.cosine 0.0)).withAccumulatorFactory
      (Truncation.factory ⟨2, -0.5⟩)).withNormalizedSnapshot
        (PackedSnapshot.ofRatings l).toSnapshot).build
    ∃ c m, build.1.state = .built c ∧ build.2.result = .ok m ∧
      ¬ ((m.matrix.get? 10 20).isSome = true ↔
        (-0.5 : Float) < cosineScore 0.0 (c.vectorOf 10) (c.vectorOf 20)) := by
  intro l build
  obtain ⟨c, m, hstate, hok, hvector, hmatrix, hruns⟩ :=
    exists_get?_iff l 2 (-0.5) 0.0 (by decide)
  have hapart : ¬ Rating.CoRated l 10 20 := by
    simp [Rating.CoRated, l]
  refine ⟨c, m, hstate, hok, fun hkept => ?_⟩
  rw [cosineScore_of_not_coRated hvector hapart, hmatrix] at hkept
  obtain ⟨x, hx⟩ := Option.isSome_iff_exists.mp (hkept.mpr (by decide))
  have hscored := ((hruns .sparseSymmetric).2 10 (by decide) 20 (by decide) (by decide) x).mp hx
  exact hapart (hscored.1 rfl)

end Builder

end ItemNeighbors
