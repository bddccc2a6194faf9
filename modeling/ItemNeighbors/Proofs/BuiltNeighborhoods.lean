import Mathlib.Data.Finset.Card
import Mathlib.Data.Finset.Filter
import ItemNeighbors.Proofs.BuildResults
import ItemNeighbors.Proofs.StrategyAgreement

/-!
# The neighborhoods of a built model

From a list of ratings to the rows of the matrix: the row of an item holds the best of the other
items by the scores of their vectors, where a vector has the last value of every user.

- `IsBestRow`: a row holds the best of some candidates.
- `NeighborHeap.isBestRow_drain_best`: a finished row does.
- `Strategy.isBestRow_builtMatrix`: the rows of a run do, if the promises are kept.
- `Builder.exists_build_of_packed`, `Builder.exists_neighborhoods`: a build from packed ratings.
- `Builder.neighborhoods_of_cosine_pearson`: the two similarities of the command line.
-/

namespace ItemNeighbors

/-- The row is sorted and holds the best `k` of the candidates whose score exceeds `t`, or all of
them if there are fewer. -/
structure IsBestRow (k : Nat) (t : Float) (candidates : Finset ItemId) (score : ItemId → Float)
    (row : List Neighbor) : Prop where
  sorted : row.Pairwise fun a b => b.score ≤ a.score
  distinct : (row.map (·.item)).Nodup
  mem : ∀ n ∈ row, n.item ∈ candidates ∧ n.score = score n.item ∧ t < n.score
  length : row.length = min k (candidates.filter fun j => t < score j).card
  leftOut : ∀ j ∈ candidates, t < score j → j ∉ row.map (·.item) → ∀ n ∈ row, score j ≤ n.score

namespace NeighborHeap

/-- The neighbors that candidates in a list make, if their score exceeds the threshold. -/
def offersOf (t : Float) (score : ItemId → Float) (l : List ItemId) : List Neighbor :=
  (l.filter fun j => t < score j).map fun j => ⟨j, score j⟩

theorem mem_offersOf {t : Float} {score : ItemId → Float} {l : List ItemId} {n : Neighbor} :
    n ∈ offersOf t score l ↔ n.item ∈ l ∧ t < score n.item ∧ n.score = score n.item := by
  simp only [offersOf, List.mem_map, List.mem_filter, decide_eq_true_eq]
  constructor
  · rintro ⟨j, ⟨hj, hlt⟩, rfl⟩
    exact ⟨hj, hlt, rfl⟩
  · rintro ⟨hj, hlt, hscore⟩
    exact ⟨n.item, ⟨hj, hlt⟩, by rw [← hscore]⟩

theorem map_item_offersOf (t : Float) (score : ItemId → Float) (l : List ItemId) :
    (offersOf t score l).map (·.item) = l.filter fun j => t < score j := by
  rw [offersOf, List.map_map]
  exact List.map_id _

/-- A finished row holds the best of what it was offered. -/
theorem isBestRow_drain_best (k : Nat) (t : Float) (score : ItemId → Float) {l : List ItemId}
    (hl : l.Nodup) :
    IsBestRow k t l.toFinset score (drain (best k (offersOf t score l))).toList := by
  have hnum : ∀ n ∈ offersOf t score l, n.score.isNaN = false := by
    intro n hn
    obtain ⟨-, hlt, hscore⟩ := mem_offersOf.mp hn
    rw [hscore]
    exact Score.isNaN_eq_false_of_lt hlt
  have htop := isTop_drain_best k hnum
  constructor
  · exact htop.sorted
  · refine htop.nodup_map_item ?_
    rw [map_item_offersOf]
    exact hl.filter _
  · intro n hn
    obtain ⟨hitem, hlt, hscore⟩ := mem_offersOf.mp (htop.mem_offers hn)
    exact ⟨List.mem_toFinset.mpr hitem, hscore, by rwa [hscore]⟩
  · have habove : (l.toFinset.filter fun j => t < score j) =
        (l.filter fun j => t < score j).toFinset := by
      ext j
      simp
    rw [htop.length, Multiset.coe_card, habove, List.toFinset_card_of_nodup (hl.filter _),
      ← map_item_offersOf t score l, List.length_map]
  · intro j hj hlt hout n hn
    have hmem : (⟨j, score j⟩ : Neighbor) ∈ offersOf t score l :=
      mem_offersOf.mpr ⟨List.mem_toFinset.mp hj, hlt, rfl⟩
    have hrow : (⟨j, score j⟩ : Neighbor) ∉ (drain (best k (offersOf t score l))).toList :=
      fun hrow => hout (List.mem_map_of_mem hrow)
    exact htop.le_of_not_mem (n := ⟨j, score j⟩) hmem hrow hn

end NeighborHeap

namespace Strategy

open Similarity (IsSymmetric VanishesOnDisjoint)

variable {s : Strategy} {f : SparseVector → SparseVector → Float} {c : BuildContext}
  {t : Truncation} {row : ItemId}

/-- If the promises are kept, a row is offered all other items in ascending order. -/
theorem offered_of_kept (hsym : s.isSymmetric = true → IsSymmetric f)
    (hsparse : s.isSparse = true → VanishesOnDisjoint f ∧ ¬ t.threshold < 0.0) :
    s.offered f c t row =
      NeighborHeap.offersOf t.threshold (fun other => f (c.vectorOf row) (c.vectorOf other))
        (c.items.toList.filter (· ≠ row)) := by
  rw [offered, NeighborHeap.offersOf, List.filter_filter]
  simp only [candidate_eq_of_kept hsym hsparse]
  induction c.items.toList with
  | nil => rfl
  | cons other items ih =>
    rw [List.filterMap_cons, List.filter_cons, ih]
    by_cases h : other ≠ row ∧ t.threshold < f (c.vectorOf row) (c.vectorOf other)
    · rw [if_pos h, if_pos (by simp [h.1, h.2]), List.map_cons]
    · rw [if_neg h, if_neg (by simpa [and_comm] using h)]

/-- If the promises are kept, the rows of a run hold the best of the other items. -/
theorem isBestRow_builtMatrix (hsym : s.isSymmetric = true → IsSymmetric f)
    (hsparse : s.isSparse = true → VanishesOnDisjoint f ∧ ¬ t.threshold < 0.0)
    (hrow : row ∈ c.items.toList) :
    ∃ neighbors, (s.builtMatrix f c t).neighbors? row = some neighbors ∧
      IsBestRow t.neighborhoodSize t.threshold (c.items.toList.toFinset.erase row)
        (fun other => f (c.vectorOf row) (c.vectorOf other)) neighbors := by
  refine ⟨_, neighbors?_builtMatrix hrow, ?_⟩
  have hcandidates : c.items.toList.toFinset.erase row =
      (c.items.toList.filter (· ≠ row)).toFinset := by
    ext other
    simp [and_comm]
  rw [offered_of_kept hsym hsparse, hcandidates]
  exact NeighborHeap.isBestRow_drain_best _ _ _ ((ItemSet.nodup_toList _).filter _)

end Strategy

/-- The model holds the neighborhoods of the rated items: the best of the other rated items by the
scores of their vectors `v`, which have the last value of every user. -/
structure Model.HoldsNeighborhoods (m : Model) (l : List Rating) (k : Nat) (t : Float)
    (f : SparseVector → SparseVector → Float) (v : ItemId → SparseVector) : Prop where
  vector : ∀ item user, (v item).get? user = Rating.lastValue l user item
  rated : ∀ item ∈ l.map (·.item), ∃ row, m.neighbors? item = some row ∧
    IsBestRow k t ((l.map (·.item)).toFinset.erase item) (fun other => f (v item) (v other)) row
  unrated : ∀ item, item ∉ l.map (·.item) → m.neighbors? item = none

namespace Builder

open Similarity (IsSymmetric VanishesOnDisjoint cosineScore pearsonScore)

variable {l : List Rating} {c : BuildContext} {collect : Bool} {item : ItemId} {user : UserId}

/-- The universe of packed ratings are the rated items. -/
theorem mem_items_of_packed
    (hitems : c.items = .ofList (PackedSnapshot.ofRatings l).toSnapshot.itemIds) :
    item ∈ c.items.toList ↔ item ∈ l.map (·.item) := by
  rw [hitems, ItemSet.mem_toList_ofList]
  show item ∈ (PackedSnapshot.ofRatings l).itemIds.toList ↔ _
  rw [PackedSnapshot.itemIds_ofRatings, List.mem_eraseDups]

/-- A vector of packed ratings has the last value of every user. -/
theorem get?_vectorOf_of_packed
    (h : c.Frozen (PackedSnapshot.ofRatings l).toSnapshot collect)
    (hitems : c.items = .ofList (PackedSnapshot.ofRatings l).toSnapshot.itemIds) :
    (c.vectorOf item).get? user = Rating.lastValue l user item := by
  rw [← PackedSnapshot.lastValue_toSnapshot]
  by_cases hitem : item ∈ c.items.toList
  · rw [h.get?_vectorOf item hitem]
    by_cases huser : user ∈ (PackedSnapshot.ofRatings l).toSnapshot.userIds
    · rw [if_pos huser]
    · -- a user who is not listed has rated nothing
      rw [if_neg huser, eq_comm, ← Option.not_isSome_iff_eq_none]
      intro hsome
      exact huser (PackedSnapshot.mem_userIds_iff_lastValue.mpr ⟨item, hsome⟩)
  · -- an item that is not declared has been rated by nobody
    rw [BuildContext.vectorOf, h.itemVector?_eq_none hitem, Option.getD_none,
      SparseVector.get?_empty, eq_comm, ← Option.not_isSome_iff_eq_none]
    rw [hitems, ItemSet.mem_toList_ofList] at hitem
    intro hsome
    exact hitem (PackedSnapshot.mem_itemIds_iff_lastValue.mpr ⟨user, hsome⟩)

/-- A build from packed ratings runs the selected strategy on them. -/
theorem exists_build_of_packed (l : List Rating) (t : Truncation)
    (f : SparseVector → SparseVector → Float) (isSparse isSymmetric : Bool) :
    let sim := Similarity.ofFunction f isSparse isSymmetric
    let snapshot := (PackedSnapshot.ofRatings l).toSnapshot
    let b := ((new.withSimilarity sim).withAccumulatorFactory t.factory).withNormalizedSnapshot
      snapshot
    ∃ c m, c.Frozen snapshot isSparse ∧ c.items = .ofList snapshot.itemIds ∧
      b.build.1.state = .built c ∧ b.build.2.result = .ok m ∧
        m.matrix = (strategyOf sim).builtMatrix f c t := by
  intro sim snapshot b
  obtain ⟨c, hfrozen, hitems, hassemble⟩ :=
    exists_context sim t.factory (PackedSnapshot.stray?_toSnapshot l)
  have hneeds : (strategyOf sim).isSparse = isSparse := Strategy.isSparse_select _ _
  have hrun := hassemble (.start 0) _ _ (hfrozen.run_buildMatrix_ofFunction (t := t)
    (fun hsparse => hneeds.symm.trans hsparse) isSparse isSymmetric _)
  have hbuild := build_of_run_eq_ok (configured_new sim t.factory snapshot) hrun
  exact ⟨c, _, hfrozen, hitems, by rw [hbuild], by rw [hbuild], rfl⟩

/-- The universe of packed ratings has as many items as there are rated ones. -/
theorem toFinset_items_of_packed
    (hitems : c.items = .ofList (PackedSnapshot.ofRatings l).toSnapshot.itemIds) :
    c.items.toList.toFinset = (l.map (·.item)).toFinset := by
  ext item
  rw [List.mem_toFinset, List.mem_toFinset, mem_items_of_packed hitems]

/-- A build from packed ratings returns a model with the neighborhoods of the rated items, if the
similarity keeps its promises. -/
theorem exists_neighborhoods (l : List Rating) (t : Truncation)
    {f : SparseVector → SparseVector → Float} {isSparse isSymmetric : Bool}
    (hsym : isSymmetric = true → IsSymmetric f)
    (hsparse : isSparse = true → VanishesOnDisjoint f ∧ ¬ t.threshold < 0.0) :
    ∃ m v, (((new.withSimilarity (.ofFunction f isSparse isSymmetric)).withAccumulatorFactory
        t.factory).withNormalizedSnapshot (PackedSnapshot.ofRatings l).toSnapshot).build.2.result =
          .ok m ∧
      m.HoldsNeighborhoods l t.neighborhoodSize t.threshold f v := by
  obtain ⟨c, m, hfrozen, hitems, -, hok, hmatrix⟩ :=
    exists_build_of_packed l t f isSparse isSymmetric
  refine ⟨m, c.vectorOf, hok, ?_, ?_, ?_⟩
  · intro item user
    exact get?_vectorOf_of_packed hfrozen hitems
  · intro item hitem
    rw [← toFinset_items_of_packed hitems, Model.neighbors?, hmatrix]
    exact Strategy.isBestRow_builtMatrix
      (fun h => hsym ((Strategy.isSymmetric_select _ _).symm.trans h))
      (fun h => hsparse ((Strategy.isSparse_select _ _).symm.trans h))
      ((mem_items_of_packed hitems).mpr hitem)
  · intro item hitem
    rw [Model.neighbors?, hmatrix]
    exact Strategy.neighbors?_builtMatrix_of_not_mem
      (mt (mem_items_of_packed hitems).mp hitem)

/-- **What the command line builds.** From any list of ratings a new builder makes a model with
the neighborhoods of the rated items, with the damped cosine for any threshold that is not negative
and with the shrunk correlation for any threshold. -/
theorem neighborhoods_of_cosine_pearson (l : List Rating) (k : Nat) (t : Float) :
    let built := fun (sim : Similarity) =>
      (((new.withSimilarity sim).withAccumulatorFactory
        (Truncation.factory ⟨k, t⟩)).withNormalizedSnapshot
          (PackedSnapshot.ofRatings l).toSnapshot).build.2.result
    (∀ damping, ¬ t < 0.0 → ∃ m v, built (.cosine damping) = .ok m ∧
        m.HoldsNeighborhoods l k t (cosineScore damping) v) ∧
      ∀ shrinkage, ∃ m v, built (.pearson shrinkage) = .ok m ∧
        m.HoldsNeighborhoods l k t (pearsonScore shrinkage) v := by
  intro built
  constructor
  · intro damping ht
    exact exists_neighborhoods l ⟨k, t⟩ (fun _ => Similarity.cosineScore_isSymmetric damping)
      fun _ => ⟨Similarity.cosineScore_vanishesOnDisjoint damping, ht⟩
  · intro shrinkage
    exact exists_neighborhoods l ⟨k, t⟩ (fun _ => Similarity.pearsonScore_isSymmetric shrinkage)
      fun h => Bool.noConfusion h

/-- The cosine keeps the better one of two items that a user rated beside a third one. -/
theorem neighborhoods_of_three_items :
    ∃ m v, (((new.withSimilarity (.cosine 0.0)).withAccumulatorFactory
        (Truncation.factory ⟨1, 0.0⟩)).withNormalizedSnapshot (PackedSnapshot.ofRatings
          [⟨7, 1, 4.0⟩, ⟨7, 2, 3.0⟩, ⟨8, 2, 5.0⟩, ⟨7, 3, 2.0⟩]).toSnapshot).build.2.result = .ok m ∧
      m.HoldsNeighborhoods [⟨7, 1, 4.0⟩, ⟨7, 2, 3.0⟩, ⟨8, 2, 5.0⟩, ⟨7, 3, 2.0⟩] 1 0.0
        (cosineScore 0.0) v :=
  (neighborhoods_of_cosine_pearson _ 1 0.0).1 0.0 (by decide)

end Builder

end ItemNeighbors
