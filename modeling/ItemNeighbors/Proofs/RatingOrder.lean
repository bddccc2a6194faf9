import ItemNeighbors.Proofs.SnapshotAgreement
import ItemNeighbors.Report

/-!
# The order of the ratings

Ratings may arrive in any order, as long as a user's ratings of one item stay in theirs: the model
that is built is the same, down to the order of neighbors with equal scores. This holds for
normalized ratings, too, since a user's vector does not depend on the order of its items.

- `Rating.SameHistory`: the same ratings, where those of one user for one item keep their order.
- `PackedSnapshot.view`: what a build sees of packed ratings, normalized or not.
- `PackedSnapshot.agree_view`: lists of the same history lead to snapshots that agree.
- `Builder.build_of_sameHistory`: builds from lists of the same history.
-/

namespace ItemNeighbors

namespace Rating

/-- One list is a permutation of the other in which the ratings of a user for an item keep their
order. -/
structure SameHistory (l l' : List Rating) : Prop where
  perm : l.Perm l'
  order : ∀ user item, l.filter (fun r => r.user == user && r.item == item) =
    l'.filter (fun r => r.user == user && r.item == item)

/-- The last value is the last of the ratings that count. -/
theorem lastValue_eq_getLast? (l : List Rating) (user : UserId) (item : ItemId) :
    lastValue l user item =
      (l.filter (fun r => r.user == user && r.item == item)).getLast?.map (·.value) := by
  rw [lastValue, List.findRev?_eq_find?_reverse, List.getLast?_filter]

theorem SameHistory.lastValue {l l' : List Rating} (h : SameHistory l l') (user : UserId)
    (item : ItemId) : Rating.lastValue l user item = Rating.lastValue l' user item := by
  rw [lastValue_eq_getLast?, lastValue_eq_getLast?, h.order]

/-- Ratings next to each other may be swapped, unless they are of one user for one item. -/
theorem sameHistory_swap {a b : Rating} (hne : a.user ≠ b.user ∨ a.item ≠ b.item)
    (l : List Rating) : SameHistory (a :: b :: l) (b :: a :: l) where
  perm := List.Perm.swap b a l
  order := by
    intro user item
    simp only [List.filter_cons, Bool.and_eq_true, beq_iff_eq]
    by_cases ha : a.user = user ∧ a.item = item
    · have hb : ¬ (b.user = user ∧ b.item = item) := by
        rintro ⟨rfl, rfl⟩
        exact hne.elim (fun h => h ha.1) fun h => h ha.2
      rw [if_neg hb, if_neg hb]
    · rw [if_neg ha, if_neg ha]

end Rating

namespace PackedSnapshot

open Rating (SameHistory)

/-- What a build sees of packed ratings: the ratings as they are, or normalized. -/
def view (n : Option Normalizer) (l : List Rating) : Snapshot :=
  match n with
  | none => (ofRatings l).toSnapshot
  | some n => ((ofRatings l).normalized n).toSnapshot

/-- The vector of a user does not depend on the order of the ratings. -/
theorem userVector_of_sameHistory {l l' : List Rating} (h : SameHistory l l') (user : UserId) :
    (ofRatings l).userVector user = (ofRatings l').userVector user := by
  apply SparseVector.ext_get?
  intro item
  rw [get?_userVector, get?_userVector, h.lastValue]

/-- Lists of the same history lead to snapshots that agree. -/
theorem agree_view {l l' : List Rating} (h : SameHistory l l') (n : Option Normalizer) :
    (view n l).Agree (view n l') := by
  cases n with
  | none =>
    apply agree_of_lastValue
    intro user item
    rw [lastValue_toSnapshot, lastValue_toSnapshot, h.lastValue]
  | some n =>
    -- both vectors of a user are normalized to the same one, whatever the normalizer
    apply agree_of_lastValue
    intro user item
    show ((ofRatings l).normalized n).toSnapshot.lastValue user item =
      ((ofRatings l').normalized n).toSnapshot.lastValue user item
    rw [lastValue_normalized, lastValue_normalized, userVector_of_sameHistory h]

/-- Either view declares whatever was rated. -/
theorem stray?_view (n : Option Normalizer) (l : List Rating) :
    (view n l).stray? (.ofList (view n l).itemIds) = none := by
  cases n with
  | none => exact stray?_toSnapshot l
  | some n => exact stray?_toSnapshot _

end PackedSnapshot

namespace Builder

open Rating (SameHistory)

/-- **The order of the ratings does not matter.** Lists of the same history, as they are or
normalized, make a builder with a function for similarity build the same model: the same universe,
vectors and item sets of users, the same matrix and so the same report. -/
theorem build_of_sameHistory {l l' : List Rating} (h : SameHistory l l') (n : Option Normalizer)
    (f : SparseVector → SparseVector → Float) (isSparse isSymmetric : Bool) (t : Truncation)
    (b : Builder) (hb : b.phase = .unconfigured) :
    let built := fun (l : List Rating) =>
      (((b.withSimilarity (.ofFunction f isSparse isSymmetric)).withAccumulatorFactory
        t.factory).withNormalizedSnapshot (PackedSnapshot.view n l)).build
    ∃ m m', (built l).2.result = .ok m ∧ (built l').2.result = .ok m' ∧
      m.items = m'.items ∧ (built l).1.items = .ok m.items ∧
      (built l).1.items = (built l').1.items ∧
      (∀ item, (built l).1.itemVector item = (built l').1.itemVector item) ∧
      (∀ user, (built l).1.userItemSet user = (built l').1.userItemSet user) ∧
      m.matrix = m'.matrix ∧
      ∀ room, Report.write room m.matrix = Report.write room m'.matrix := by
  intro built
  have hconfigured : (((b.withSimilarity
      (.ofFunction f isSparse isSymmetric)).withAccumulatorFactory
      t.factory).withNormalizedSnapshot (PackedSnapshot.view n l)).Configured
        (.ofFunction f isSparse isSymmetric) t.factory (PackedSnapshot.view n l) :=
    ⟨hb, rfl, rfl, rfl⟩
  obtain ⟨⟨m, hm, hitems⟩, hsame, hanswers⟩ := build_agree hconfigured
    (Similarity.total_ofFunction f _ _) (PackedSnapshot.agree_view h n)
    (PackedSnapshot.stray?_view n l) (PackedSnapshot.stray?_view n l')
  have hm' : (built l').2.result = .ok m :=
    (congrArg BuildOutcome.result hsame).symm.trans hm
  exact ⟨m, m, hm, hm', rfl, hitems, hanswers.items, hanswers.itemVector, hanswers.userItemSet,
    rfl, fun _ => rfl⟩

/-- Two ratings of one item may come in either order, also if they are centered. -/
theorem build_of_two_orders :
    let built := fun (l : List Rating) =>
      (((new.withSimilarity (.cosine 0.0)).withAccumulatorFactory
        (Truncation.factory ⟨1, 0.0⟩)).withNormalizedSnapshot
          (PackedSnapshot.view (some .meanCentering) l)).build
    ∃ m m', (built [⟨1, 5, 4.0⟩, ⟨2, 5, 3.0⟩, ⟨1, 6, 2.0⟩]).2.result = .ok m ∧
      (built [⟨2, 5, 3.0⟩, ⟨1, 5, 4.0⟩, ⟨1, 6, 2.0⟩]).2.result = .ok m' ∧
      m.matrix = m'.matrix := by
  intro built
  have husers : (⟨1, 5, 4.0⟩ : Rating).user ≠ (⟨2, 5, 3.0⟩ : Rating).user := by decide
  have hhistory := Rating.sameHistory_swap (.inl husers) [⟨1, 6, 2.0⟩]
  obtain ⟨m, m', hm, hm', -, -, -, -, -, hmatrix, -⟩ :=
    build_of_sameHistory hhistory (some .meanCentering) (Similarity.cosineScore 0.0) true true
      ⟨1, 0.0⟩ new rfl
  exact ⟨m, m', hm, hm', hmatrix⟩

end Builder

end ItemNeighbors
