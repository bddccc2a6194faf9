import Mathlib.Data.List.Induction
import ItemNeighbors.Baseline
import ItemNeighbors.Proofs.PositiveNumbers

/-!
# What item means are trained to

Training goes through all ratings once and adds each to the tally of its item. Floating point sums
depend on the order, so it matters that nothing else gets into the tally of an item: it ends as the
sum over the ratings of the item alone, from left to right.

- `Rating.total`, `Rating.mean`, `Rating.ofItem`: the definition, item by item.
- `ItemMeans.Tallied`: what the tallies are after some ratings.
- `ItemMeans.globalMean_train`, `ItemMeans.getElem?_means_train`: the means that are kept.
- `ItemMeans.train_agrees`: what is predicted from them, and that nothing is divided by zero.
-/

namespace ItemNeighbors

namespace Rating

/-- The sum of the values, added from left to right to a positive zero. -/
def total (l : List Rating) : Float :=
  l.foldl (fun sum r => sum + r.value) 0.0

/-- The mean of the values, zero if there are none. -/
def mean (l : List Rating) : Float :=
  if l = [] then 0.0 else total l / l.length.toFloat

/-- The ratings of one item, in their order. -/
def ofItem (l : List Rating) (item : ItemId) : List Rating :=
  l.filter (·.item == item)

theorem total_concat (l : List Rating) (r : Rating) : total (l ++ [r]) = total l + r.value := by
  simp [total]

theorem ofItem_concat (l : List Rating) (r : Rating) (item : ItemId) :
    ofItem (l ++ [r]) item = ofItem l item ++ if r.item = item then [r] else [] := by
  by_cases hitem : r.item = item <;> simp [ofItem, hitem]

end Rating

namespace ItemMeans

open Rating

/-- The sum and the number of some ratings. -/
def tallyOf (l : List Rating) : Tally := ⟨total l, l.length⟩

theorem tallyOf_concat (l : List Rating) (r : Rating) :
    tallyOf (l ++ [r]) = (tallyOf l).add r.value := by
  simp [tallyOf, Tally.add, total_concat]

/-- The ratings that were taken in so far have been tallied, all together and item by item. -/
structure Tallied (l : List Rating) (t : Tallies) : Prop where
  overall : t.overall = tallyOf l
  byItem : ∀ item, t.byItem[item]? =
    if ofItem l item = [] then none else some (tallyOf (ofItem l item))

theorem tallied_start : Tallied [] ⟨Tally.zero, ∅⟩ where
  overall := rfl
  byItem := fun item => by simp [ofItem]

theorem Tallied.getD_byItem {l : List Rating} {t : Tallies} (h : Tallied l t) (item : ItemId) :
    t.byItem.getD item Tally.zero = tallyOf (ofItem l item) := by
  rw [Std.HashMap.getD_eq_getD_getElem?, h.byItem]
  split
  · rename_i hnone
    rw [hnone]
    rfl
  · rfl

/-- One more rating adds to the tally of its item and to no other. -/
theorem Tallied.add {l : List Rating} {t : Tallies} (h : Tallied l t) (r : Rating) :
    Tallied (l ++ [r]) (t.add r) where
  overall := by
    show t.overall.add r.value = _
    rw [h.overall, tallyOf_concat]
  byItem := by
    intro item
    show (t.byItem.insert r.item ((t.byItem.getD r.item Tally.zero).add r.value))[item]? = _
    rw [Std.HashMap.getElem?_insert, h.getD_byItem, ofItem_concat]
    by_cases hitem : r.item = item
    · simp [hitem, tallyOf_concat]
    · simp [hitem, h.byItem]

theorem tallied_ofRatings (l : List Rating) : Tallied l (Tallies.ofRatings l) := by
  induction l using List.reverseRecOn with
  | nil => exact tallied_start
  | append_singleton l r ih =>
    rw [show Tallies.ofRatings (l ++ [r]) = (Tallies.ofRatings l).add r by
      simp [Tallies.ofRatings]]
    exact ih.add r

theorem meanOf_tallyOf (l : List Rating) : meanOf (tallyOf l) = mean l := by
  simp [meanOf, tallyOf, mean]

theorem globalMean_train (s : Snapshot) (damping : Float) :
    (train s damping).globalMean = mean s.ratings := by
  show meanOf (Tallies.ofRatings s.ratings).overall = _
  rw [(tallied_ofRatings s.ratings).overall, meanOf_tallyOf]

/-- Only rated items have a mean of their own. -/
theorem getElem?_means_train (s : Snapshot) (damping : Float) (item : ItemId) :
    (train s damping).means[item]? =
      if ofItem s.ratings item = [] then none
      else some (dampedMean damping (mean s.ratings) (tallyOf (ofItem s.ratings item))) := by
  show ((Tallies.ofRatings s.ratings).byItem.map fun _ t =>
    dampedMean damping (train s damping).globalMean t)[item]? = _
  rw [Std.HashMap.getElem?_map, (tallied_ofRatings s.ratings).byItem, globalMean_train]
  split <;> simp

/-- The prediction is the same for all users and vectors. -/
theorem predict_train (s : Snapshot) (damping : Float) (item : ItemId) :
    (train s damping).predict item =
      if ofItem s.ratings item = [] then mean s.ratings
      else dampedMean damping (mean s.ratings) (tallyOf (ofItem s.ratings item)) := by
  rw [predict, Std.HashMap.getD_eq_getD_getElem?, getElem?_means_train, globalMean_train]
  split <;> rfl

theorem zero_lt_count {l : List Rating} (h : l ≠ []) : 0.0 < l.length.toFloat :=
  Score.toFloat_pos (List.length_pos_iff.mpr h)

/-- **Training in one pass gives the mean of each item by itself.** The ratings are taken in the
order of the listed users and of the ratings of each. For every user and vector, an item that was
rated is predicted the sum of its own values, from left to right, and of the damping times the mean
of all values, divided by the number of its values and the damping; any other item, declared or
not, is predicted the mean of all. No divisor is zero if the damping is not negative. -/
theorem train_agrees (s : Snapshot) (damping : Float) :
    let G := mean s.ratings
    (∀ (user : UserId) (vector : SparseVector) (item : ItemId),
      (Baseline.itemMeans (train s damping)).predict user vector item =
        let rated := ofItem s.ratings item
        if rated = [] then G
        else (total rated + damping * G) / (rated.length.toFloat + damping)) ∧
      (s.ratings ≠ [] → 0.0 < s.ratings.length.toFloat) ∧
      (0.0 ≤ damping → ∀ item, ofItem s.ratings item ≠ [] →
        0.0 < (ofItem s.ratings item).length.toFloat + damping) := by
  intro G
  refine ⟨fun _ _ item => predict_train s damping item, zero_lt_count, ?_⟩
  intro hdamping item hrated
  exact Score.zero_lt_add (zero_lt_count hrated) hdamping

/-- A user who is listed twice, an item that he rated twice therefore, and one that nobody rated. -/
theorem train_agrees_of_repeated_user :
    let s : Snapshot :=
      { userIds := [1, 2, 1]
        itemIds := [10, 20, 30]
        ratingsOf := fun user =>
          if user = 1 then [⟨1, 10, 5.0⟩, ⟨1, 20, 3.0⟩]
          else if user = 2 then [⟨2, 10, 4.0⟩] else [] }
    (0.0 : Float) ≤ 2.0 ∧ s.ratings ≠ [] ∧ ofItem s.ratings 20 ≠ [] ∧
      ofItem s.ratings 30 = [] ∧
      (Baseline.itemMeans (train s 2.0)).predict 1 .empty 20 = 3.5 ∧
      (Baseline.itemMeans (train s 2.0)).predict 1 .empty 30 = 4.0 ∧
      0.0 < s.ratings.length.toFloat ∧
      0.0 < (ofItem s.ratings 20).length.toFloat + (2.0 : Float) := by
  intro s
  have hratings : s.ratings =
      [⟨1, 10, 5.0⟩, ⟨1, 20, 3.0⟩, ⟨2, 10, 4.0⟩, ⟨1, 10, 5.0⟩, ⟨1, 20, 3.0⟩] := by
    simp [s, Snapshot.ratings]
  have hdamping : (0.0 : Float) ≤ 2.0 := by decide
  have hany : s.ratings ≠ [] := by simp [hratings]
  have hof : ofItem s.ratings 20 = [⟨1, 20, 3.0⟩, ⟨1, 20, 3.0⟩] := by simp [hratings, ofItem]
  have hnone : ofItem s.ratings 30 = [] := by simp [hratings, ofItem]
  have hrated : ofItem s.ratings 20 ≠ [] := by simp [hof]
  have hmean : mean s.ratings = 4.0 := by
    rw [mean, if_neg hany, hratings]
    decide +kernel
  obtain ⟨hpredict, hall, hitem⟩ := train_agrees s 2.0
  refine ⟨hdamping, hany, hrated, hnone, ?_, ?_, hall hany, hitem hdamping 20 hrated⟩
  · rw [hpredict]
    dsimp only
    rw [if_neg hrated, hmean, hof]
    decide +kernel
  · rw [hpredict]
    dsimp only
    rw [if_pos hnone, hmean]

end ItemMeans

end ItemNeighbors
