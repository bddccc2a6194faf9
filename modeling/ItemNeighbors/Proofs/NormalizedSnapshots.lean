import Mathlib.Data.Finset.Card
import Mathlib.Data.List.Nodup
import ItemNeighbors.Proofs.SnapshotAgreement

/-!
# Normalized snapshots

Normalizing collapses the repeated ratings of a user and sorts his items. It forgets neither a user
nor an item, and it invents none: what it changes are values and the order of items.

- `Rating.pairs`: who rated what in a list of ratings.
- `PackedSnapshot.normalizedRatings`: the ratings that a normalized snapshot packs.
- `PackedSnapshot.userIds_normalized`, `PackedSnapshot.numRatings_normalized`,
  `PackedSnapshot.userVector_normalized`: the views of a normalized snapshot.
- `PackedSnapshot.normalized_identity_idem`: leaving the values alone twice is doing so once.
- `PackedSnapshot.normalized_keeps_domain`: all of this, and what a build makes of it.
-/

namespace ItemNeighbors

namespace Rating

/-- Who rated what, in order. -/
def pairs (l : List Rating) : List (UserId × ItemId) :=
  l.map fun r => (r.user, r.item)

theorem mem_pairs {l : List Rating} {user : UserId} {item : ItemId} :
    (user, item) ∈ pairs l ↔ ∃ r ∈ l, r.user = user ∧ r.item = item := by
  simp [pairs]

end Rating

namespace PackedSnapshot

variable {l : List Rating} {n : Normalizer} {user : UserId} {item : ItemId}

/-! ## The ratings of a normalized snapshot -/

/-- The ratings that a normalized snapshot packs, user by user. -/
def normalizedRatings (l : List Rating) (n : Normalizer) : List Rating :=
  (ofRatings l).userIds.toList.flatMap ((ofRatings l).normalizedRatingsOf n)

theorem normalized_eq (l : List Rating) (n : Normalizer) :
    (ofRatings l).normalized n = ofRatings (normalizedRatings l n) := rfl

/-- The vector of a user has the items he rated. -/
theorem mem_keys_userVector :
    item ∈ ((ofRatings l).userVector user).keys ↔ (user, item) ∈ Rating.pairs l := by
  rw [Rating.mem_pairs, ← Rating.isSome_lastValue, ← get?_userVector, Option.isSome_iff_exists,
    SparseVector.mem_keys_iff]

/-- The normalized ratings of a user are of the items he rated, in ascending order. -/
theorem pairs_normalizedRatingsOf (l : List Rating) (n : Normalizer) (user : UserId) :
    Rating.pairs ((ofRatings l).normalizedRatingsOf n user) =
      ((ofRatings l).userVector user).keys.map (user, ·) := by
  have hkeys := n.keys_normalize ((ofRatings l).userVector user) ((ofRatings l).userVector user)
  rw [← hkeys, SparseVector.keys, Rating.pairs, normalizedRatingsOf, List.map_map, List.map_map]
  rfl

theorem pairs_normalizedRatings (l : List Rating) (n : Normalizer) :
    Rating.pairs (normalizedRatings l n) = (ofRatings l).userIds.toList.flatMap fun user =>
      ((ofRatings l).userVector user).keys.map (user, ·) := by
  rw [Rating.pairs, normalizedRatings, List.map_flatMap]
  exact List.flatMap_congr fun user _ => pairs_normalizedRatingsOf l n user

/-- Normalizing keeps who rated what. -/
theorem mem_pairs_normalizedRatings :
    (user, item) ∈ Rating.pairs (normalizedRatings l n) ↔ (user, item) ∈ Rating.pairs l := by
  rw [pairs_normalizedRatings]
  simp only [List.mem_flatMap, List.mem_map, Prod.mk.injEq, mem_keys_userVector]
  constructor
  · rintro ⟨_, -, _, hpair, rfl, rfl⟩
    exact hpair
  · intro hpair
    obtain ⟨r, hr, huser, -⟩ := Rating.mem_pairs.mp hpair
    exact ⟨user, mem_userIds_ofRatings.mpr ⟨r, hr, huser⟩, item, hpair, rfl, rfl⟩

/-- In normalized ratings nobody rates an item twice. -/
theorem nodup_pairs_normalizedRatings (l : List Rating) (n : Normalizer) :
    (Rating.pairs (normalizedRatings l n)).Nodup := by
  rw [pairs_normalizedRatings, List.nodup_flatMap]
  refine ⟨fun user _ => ?_, ?_⟩
  · exact (SparseVector.nodup_keys _).map fun _ _ h => (Prod.mk.inj h).2
  · refine (nodup_userIds_ofRatings l).imp ?_
    intro u v huv p hu hv
    obtain ⟨_, -, rfl⟩ := List.mem_map.mp hu
    obtain ⟨_, -, heq⟩ := List.mem_map.mp hv
    exact huv (Prod.mk.inj heq).1.symm

/-! ## The views of a normalized snapshot -/

/-- A listed user has normalized ratings. -/
theorem normalizedRatingsOf_ne_nil (h : user ∈ (ofRatings l).userIds.toList) :
    (ofRatings l).normalizedRatingsOf n user ≠ [] := by
  obtain ⟨r, hr, huser⟩ := mem_userIds_ofRatings.mp h
  have hmem : (user, r.item) ∈ Rating.pairs ((ofRatings l).normalizedRatingsOf n user) := by
    rw [pairs_normalizedRatingsOf]
    have hkey : r.item ∈ ((ofRatings l).userVector user).keys :=
      mem_keys_userVector.mpr (Rating.mem_pairs.mpr ⟨r, hr, huser, rfl⟩)
    exact List.mem_map_of_mem hkey
  intro hnil
  rw [hnil] at hmem
  exact absurd hmem List.not_mem_nil

theorem userIds_normalized (l : List Rating) (n : Normalizer) :
    ((ofRatings l).normalized n).userIds = (ofRatings l).userIds :=
  Array.toList_inj.mp (userIds_ofRatings_flatMap (nodup_userIds_ofRatings l)
    (fun _ _ _ hr => user_of_mem_normalizedRatingsOf hr) fun _ hu => normalizedRatingsOf_ne_nil hu)

theorem itemIds_normalized_perm (l : List Rating) (n : Normalizer) :
    ((ofRatings l).normalized n).itemIds.toList.Perm (ofRatings l).itemIds.toList := by
  have hnodup : ∀ l : List Rating, (ofRatings l).itemIds.toList.Nodup := by
    intro l
    rw [itemIds_ofRatings]
    exact nodup_eraseDups _
  have hitems : ∀ l : List Rating, ∀ item, item ∈ (ofRatings l).itemIds.toList ↔
      ∃ user, (user, item) ∈ Rating.pairs l := by
    intro l item
    simp only [mem_itemIds_ofRatings, Rating.mem_pairs]
    constructor
    · rintro ⟨r, hr, hitem⟩
      exact ⟨r.user, r, hr, rfl, hitem⟩
    · rintro ⟨user, r, hr, -, hitem⟩
      exact ⟨r, hr, hitem⟩
  rw [normalized_eq, List.perm_ext_iff_of_nodup (hnodup _) (hnodup _)]
  intro item
  rw [hitems, hitems]
  simp only [mem_pairs_normalizedRatings]

/-- A normalized snapshot has one rating of each user for each item he rated. -/
theorem numRatings_normalized (l : List Rating) (n : Normalizer) :
    ((ofRatings l).normalized n).numRatings = (Rating.pairs l).toFinset.card := by
  have hpairs : (Rating.pairs (normalizedRatings l n)).toFinset = (Rating.pairs l).toFinset := by
    ext ⟨user, item⟩
    rw [List.mem_toFinset, List.mem_toFinset, mem_pairs_normalizedRatings]
  calc ((ofRatings l).normalized n).numRatings
      = (normalizedRatings l n).length := (packs_ofRatings _).numRatings
    _ = (Rating.pairs (normalizedRatings l n)).length := (List.length_map _).symm
    _ = (Rating.pairs (normalizedRatings l n)).toFinset.card :=
        (List.toFinset_card_of_nodup (nodup_pairs_normalizedRatings l n)).symm
    _ = (Rating.pairs l).toFinset.card := by rw [hpairs]

/-- The vector of a user in a normalized snapshot is his normalized vector. -/
theorem userVector_normalized (l : List Rating) (n : Normalizer) (user : UserId) :
    ((ofRatings l).normalized n).userVector user =
      n.normalize ((ofRatings l).userVector user) ((ofRatings l).userVector user) := by
  have hentries : ((ofRatings l).normalizedRatingsOf n user).map (fun r => (r.item, r.value)) =
      (n.normalize ((ofRatings l).userVector user) ((ofRatings l).userVector user)).toList := by
    rw [normalizedRatingsOf, List.map_map]
    exact List.map_id _
  rw [userVector, ratingsOf_normalized, hentries, SparseVector.ofPairs_toList]

/-! ## Values that are left alone -/

/-- Leaving the values alone a second time changes nothing any more, not even an order. -/
theorem normalized_identity_idem (l : List Rating) :
    ((ofRatings l).normalized .identity).normalized .identity =
      (ofRatings l).normalized .identity := by
  have husers : (ofRatings (normalizedRatings l .identity)).userIds = (ofRatings l).userIds :=
    userIds_normalized l .identity
  have hratings : (ofRatings (normalizedRatings l .identity)).normalizedRatingsOf .identity =
      (ofRatings l).normalizedRatingsOf .identity := by
    funext user
    have hvector : (ofRatings (normalizedRatings l .identity)).userVector user =
        (ofRatings l).userVector user := userVector_normalized l .identity user
    rw [normalizedRatingsOf, normalizedRatingsOf, hvector]
  rw [normalized_eq, normalized_eq, normalizedRatings, husers, hratings]
  rfl

/-- A build cannot tell a snapshot from the one with its values left alone. -/
theorem agree_normalized_identity (l : List Rating) :
    (ofRatings l).toSnapshot.Agree ((ofRatings l).normalized .identity).toSnapshot := by
  rw [normalized_eq]
  refine agree_of_lastValue fun user item => ?_
  rw [← normalized_eq]
  rw [lastValue_normalized, lastValue_toSnapshot, ← get?_userVector]
  rfl

/-- **Normalizing keeps who rated what.** Whatever the ratings and the normalizer, the normalized
snapshot lists the same users in the same order and the same items, has one rating for each pair of
a user and an item, and gives each user his normalized vector, with the same items. Where values
are left alone, a second time changes nothing, and a builder with a function for similarity builds
the same model, with the same look-ups, from either snapshot. -/
theorem normalized_keeps_domain (l : List Rating) :
    let s := ofRatings l
    (∀ n : Normalizer,
      (s.normalized n).userIds = s.userIds ∧
        (s.normalized n).itemIds.toList.Perm s.itemIds.toList ∧
        (s.normalized n).numRatings = (Rating.pairs l).toFinset.card ∧
        ∀ user, (s.normalized n).userVector user =
            n.normalize (s.userVector user) (s.userVector user) ∧
          ((s.normalized n).userVector user).keys = (s.userVector user).keys) ∧
      (s.normalized .identity).normalized .identity = s.normalized .identity ∧
      ∀ (f : SparseVector → SparseVector → Float) (isSparse isSymmetric : Bool) (t : Truncation)
        (b : Builder), b.phase = .unconfigured →
          let build := fun snapshot : Snapshot =>
            (((b.withSimilarity (.ofFunction f isSparse isSymmetric)).withAccumulatorFactory
              t.factory).withNormalizedSnapshot snapshot).build
          (∃ m, (build s.toSnapshot).2.result = .ok m ∧
              (build (s.normalized .identity).toSnapshot).2.result = .ok m ∧
                (build s.toSnapshot).1.items = .ok m.items) ∧
            (build s.toSnapshot).1.SameAnswers (build (s.normalized .identity).toSnapshot).1 := by
  intro s
  refine ⟨fun n => ?_, normalized_identity_idem l, ?_⟩
  · refine ⟨userIds_normalized l n, itemIds_normalized_perm l n, numRatings_normalized l n, ?_⟩
    intro user
    rw [userVector_normalized]
    exact ⟨rfl, n.keys_normalize _ _⟩
  · intro f isSparse isSymmetric t b hb build
    have hconfigured : (((b.withSimilarity (.ofFunction f isSparse
        isSymmetric)).withAccumulatorFactory t.factory).withNormalizedSnapshot
          s.toSnapshot).Configured (.ofFunction f isSparse isSymmetric) t.factory s.toSnapshot :=
      ⟨hb, rfl, rfl, rfl⟩
    obtain ⟨⟨m, hm, hitems⟩, hsame, hanswers⟩ := Builder.build_agree hconfigured
      (Similarity.total_ofFunction f _ _) (agree_normalized_identity l) (stray?_toSnapshot l)
      (stray?_toSnapshot (normalizedRatings l .identity))
    have hm' : (build (s.normalized .identity).toSnapshot).2.result = .ok m :=
      (congrArg BuildOutcome.result hsame).symm.trans hm
    exact ⟨⟨m, hm, hm', hitems⟩, hanswers⟩

/-- A user who rated an item twice and a smaller one between is listed once, with two ratings. -/
theorem normalized_keeps_domain_of_repeated :
    let s := ofRatings [⟨2, 30, 1.0⟩, ⟨1, 20, 2.0⟩, ⟨2, 10, 3.0⟩, ⟨2, 30, 4.0⟩]
    (s.normalized .meanCentering).userIds = #[2, 1] ∧
      (s.normalized .meanCentering).numRatings = 3 ∧
      ∃ m, (((Builder.new.withSimilarity (.pearson 0.0)).withAccumulatorFactory
        (Truncation.factory ⟨1, 0.0⟩)).withNormalizedSnapshot
          (s.normalized .identity).toSnapshot).build.2.result = .ok m := by
  intro s
  obtain ⟨hkeeps, -, hbuild⟩ :=
    normalized_keeps_domain [⟨2, 30, 1.0⟩, ⟨1, 20, 2.0⟩, ⟨2, 10, 3.0⟩, ⟨2, 30, 4.0⟩]
  obtain ⟨husers, -, hcount, -⟩ := hkeeps .meanCentering
  obtain ⟨⟨m, -, hm, -⟩, -⟩ :=
    hbuild (Similarity.pearsonScore 0.0) false true ⟨1, 0.0⟩ Builder.new rfl
  refine ⟨husers.trans (Array.toList_inj.mp ?_), hcount.trans (by decide), m, hm⟩
  rw [userIds_ofRatings]
  decide

end PackedSnapshot

end ItemNeighbors
