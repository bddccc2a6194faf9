import ItemNeighbors.Builder
import ItemNeighbors.Proofs.CoRating
import ItemNeighbors.Proofs.Packing

/-!
# What a build can return

A builder that has all its parts and has not been started builds a model, unless a listed user
rated an item that the snapshot does not declare. No other error is left: the sets are collected
for the strategies that need them, and whatever a run looks up is there.

- `Builder.Configured`: the builder has its parts and has not been started.
- `Builder.run_assemble_of_stray`, `Builder.exists_context`: the two ways in which a build can go.
- `Builder.build_of_run_eq_ok`, `Builder.build_of_run_eq_refused`: what becomes of the builder.
- `Builder.build_error_iff`: when a build fails, and how.
-/

namespace ItemNeighbors

namespace Builder

open Scoring

variable {b : Builder} {sim : Similarity} {factory : AccumulatorFactory} {snapshot : Snapshot}
  {t : Truncation} {j j' : Journal}

/-! ## Assembling -/

/-- The strategy that a similarity selects. -/
abbrev strategyOf (sim : Similarity) : Strategy :=
  .select sim.isSparse sim.isSymmetric

/-- The journal when the transposition begins. -/
def announced (sim : Similarity) (j : Journal) : Journal :=
  { j with notes := (j.notes.push (.usingStrategy (strategyOf sim))).push .buildingItemData }

/-- What a build begins with. -/
theorem run_assemble :
    (assemble sim factory snapshot).run j =
      (do
        let items := ItemSet.ofList snapshot.itemIds
        let transposed ← require (snapshot.transpose items (strategyOf sim).needsUserItemSets)
        let context := BuildContext.freeze items transposed
        let matrix ← (strategyOf sim).buildMatrix sim context (factory items)
        return (context, matrix) : Scoring (BuildContext × SimilarityMatrix)).run
          (announced sim j) := by
  unfold assemble
  rw [run_bind_ok (run_note _), run_bind_ok (run_note _)]
  rfl

/-- A rating of an undeclared item ends the build. -/
theorem run_assemble_of_stray {stray : UserId × ItemId}
    (h : snapshot.stray? (.ofList snapshot.itemIds) = some stray) :
    (assemble sim factory snapshot).run j =
      (.error (.refused (.unknownRatedItem stray.1 stray.2)), announced sim j) := by
  rw [run_assemble]
  exact run_bind_error (run_require_error (Snapshot.transpose_eq_error h))

/-- A build goes on to the matrix if the transposition and the run succeed. -/
theorem run_assemble_eq_ok {tr : TransposedRatings} {m : SimilarityMatrix}
    (htr : snapshot.transpose (.ofList snapshot.itemIds)
      (strategyOf sim).needsUserItemSets = .ok tr)
    (hm : ((strategyOf sim).buildMatrix sim (.freeze (.ofList snapshot.itemIds) tr)
      (factory (.ofList snapshot.itemIds))).run (announced sim j) = (.ok m, j')) :
    (assemble sim factory snapshot).run j =
      (.ok (.freeze (.ofList snapshot.itemIds) tr, m), j') := by
  rw [run_assemble, run_bind_ok (run_require_ok htr), run_bind_ok hm]
  rfl

/-- A finished build has transposed the ratings, frozen them and run its strategy on them. -/
theorem exists_of_run_assemble_eq_ok {c : BuildContext} {m : SimilarityMatrix}
    (h : (assemble sim factory snapshot).run j = (.ok (c, m), j')) :
    ∃ tr, snapshot.transpose (.ofList snapshot.itemIds) sim.isSparse = .ok tr ∧
      c = .freeze (.ofList snapshot.itemIds) tr ∧
        ((strategyOf sim).buildMatrix sim c (factory (.ofList snapshot.itemIds))).run
          (announced sim j) = (.ok m, j') := by
  have hneeds : (strategyOf sim).needsUserItemSets = sim.isSparse :=
    Strategy.isSparse_select _ _
  rw [run_assemble, hneeds] at h
  obtain ⟨tr, j₁, hrequire, h⟩ := exists_of_run_bind_eq_ok h
  obtain ⟨m', j₂, hm, h⟩ := exists_of_run_bind_eq_ok h
  cases h
  obtain ⟨htr, rfl⟩ := eq_ok_of_run_require hrequire
  exact ⟨tr, htr, rfl, hm⟩

/-- Without a rating of an undeclared item a context is frozen as it should be, and the rest of the
build is the run of the strategy on it. -/
theorem exists_context (sim : Similarity) (factory : AccumulatorFactory)
    (h : snapshot.stray? (.ofList snapshot.itemIds) = none) :
    ∃ c, c.Frozen snapshot sim.isSparse ∧ c.items = .ofList snapshot.itemIds ∧ ∀ j m j',
      ((strategyOf sim).buildMatrix sim c (factory c.items)).run (announced sim j) = (.ok m, j') →
        (assemble sim factory snapshot).run j = (.ok (c, m), j') := by
  -- the strategy reads the sets exactly if the similarity is sparse, and then they are collected
  have hneeds : (strategyOf sim).needsUserItemSets = sim.isSparse :=
    Strategy.isSparse_select _ _
  obtain ⟨tr, htr, hcollected⟩ := Snapshot.exists_transpose_eq_ok h sim.isSparse
  refine ⟨_, BuildContext.frozen_of_collected hcollected h, rfl, ?_⟩
  intro j m j' hm
  exact run_assemble_eq_ok (by rw [hneeds, htr]) hm

/-- The run of the selected strategy on the frozen context is not stopped. -/
theorem run_buildMatrix_of_frozen {c : BuildContext} (hsim : sim.Total)
    (h : c.Frozen snapshot sim.isSparse) (j : Journal) :
    ((strategyOf sim).buildMatrix sim c (t.factory c.items)).run j =
      (.ok (NeighborAccumulator.after t c.items
          ((strategyOf sim).putsFrom sim c j.asked ((strategyOf sim).pairs c))).toMatrix,
        (strategyOf sim).journalAfter sim c j) :=
  Strategy.run_buildMatrix hsim (h.scorable fun hsparse =>
    (Strategy.isSparse_select _ _).symm.trans hsparse)

/-! ## Building -/

/-- The builder has its parts and has not been started. -/
structure Configured (b : Builder) (sim : Similarity) (factory : AccumulatorFactory)
    (snapshot : Snapshot) : Prop where
  phase : b.phase = .unconfigured
  similarity : b.similarity = some sim
  factory : b.factory = some factory
  snapshot : b.snapshot = some snapshot

theorem phase_eq_unconfigured_iff : b.phase = .unconfigured ↔ b.state = .unconfigured := by
  cases hstate : b.state <;> simp [phase, hstate]

theorem Configured.state (h : b.Configured sim factory snapshot) : b.state = .unconfigured :=
  phase_eq_unconfigured_iff.mp h.phase

/-- A new builder that is given its parts is configured. -/
theorem configured_new (sim : Similarity) (factory : AccumulatorFactory) (snapshot : Snapshot) :
    (((new.withSimilarity sim).withAccumulatorFactory factory).withNormalizedSnapshot
      snapshot).Configured sim factory snapshot :=
  ⟨rfl, rfl, rfl, rfl⟩

/-- A build that is assembled ends with a model, and the builder keeps the context. -/
theorem build_of_run_eq_ok (h : b.Configured sim factory snapshot) {c : BuildContext}
    {m : SimilarityMatrix}
    (hrun : (assemble sim factory snapshot).run (.start b.asked) = (.ok (c, m), j)) :
    b.build = ({ b with asked := j.asked, state := .built c },
      ⟨.ok { matrix := m, normalizer := b.normalizer, baseline := b.baseline, items := c.items },
        j⟩) := by
  unfold build
  rw [h.state, h.similarity, h.factory, h.snapshot]
  simp only [hrun]

/-- A build that is refused on the way leaves the builder where it was. -/
theorem build_of_run_eq_refused (h : b.Configured sim factory snapshot) {e : BuildError}
    (hrun : (assemble sim factory snapshot).run (.start b.asked) = (.error (.refused e), j)) :
    b.build = ({ b with asked := j.asked }, ⟨.error (.refused e), j⟩) := by
  unfold build
  rw [h.state, h.similarity, h.factory, h.snapshot]
  simp only [hrun]

/-- A build whose similarity gives no answer leaves the builder in the middle of it. -/
theorem build_of_run_eq_failed (h : b.Configured sim factory snapshot)
    (hrun : (assemble sim factory snapshot).run (.start b.asked) =
      (.error .similarityFailed, j)) :
    b.build = ({ b with asked := j.asked, state := .building }, ⟨.error .similarityFailed, j⟩) := by
  unfold build
  rw [h.state, h.similarity, h.factory, h.snapshot]
  simp only [hrun]

/-- A build without ratings of undeclared items returns a model. -/
theorem exists_build_eq_ok (h : b.Configured sim t.factory snapshot) (hsim : sim.Total)
    (hknown : snapshot.stray? (.ofList snapshot.itemIds) = none) :
    ∃ m, b.build.2.result = .ok m := by
  obtain ⟨c, hfrozen, -, hassemble⟩ := exists_context sim t.factory hknown
  have hrun := hassemble (.start b.asked) _ _ (run_buildMatrix_of_frozen hsim hfrozen _)
  rw [build_of_run_eq_ok h hrun]
  exact ⟨_, rfl⟩

/-- A build stops at the first rating of an undeclared item. -/
theorem build_result_of_stray (h : b.Configured sim factory snapshot) {stray : UserId × ItemId}
    (hstray : snapshot.stray? (.ofList snapshot.itemIds) = some stray) :
    b.build.2.result = .error (.refused (.unknownRatedItem stray.1 stray.2)) := by
  rw [build_of_run_eq_refused h (run_assemble_of_stray hstray)]

/-- The first stray rating is the first one of an item that is not declared. -/
theorem stray?_ofList (snapshot : Snapshot) :
    snapshot.stray? (.ofList snapshot.itemIds) =
      snapshot.rated.find? fun p => p.2 ∉ snapshot.itemIds := by
  simp only [Snapshot.stray?_eq, ItemSet.mem_toList_ofList]

/-- There is a stray rating exactly if some listed user rated an undeclared item. -/
theorem isSome_stray?_iff :
    (snapshot.stray? (.ofList snapshot.itemIds)).isSome = true ↔
      ∃ user ∈ snapshot.userIds, ∃ r ∈ snapshot.ratingsOf user, r.item ∉ snapshot.itemIds := by
  rw [Option.isSome_iff_ne_none, ne_eq, Snapshot.stray?_eq_none_iff]
  simp only [ItemSet.contains_iff, ItemSet.mem_toList_ofList, not_forall, exists_prop]

/-- A build returns an error exactly if there is a stray rating, and names the first. -/
theorem build_result_eq_error_iff (h : b.Configured sim t.factory snapshot) (hsim : sim.Total)
    {e : BuildFailure} :
    b.build.2.result = .error e ↔ ∃ stray,
      snapshot.stray? (.ofList snapshot.itemIds) = some stray ∧
        e = .refused (.unknownRatedItem stray.1 stray.2) := by
  cases hstray : snapshot.stray? (.ofList snapshot.itemIds) with
  | none =>
    obtain ⟨m, hm⟩ := exists_build_eq_ok h hsim hstray
    simp [hm]
  | some stray =>
    rw [build_result_of_stray h hstray]
    simp [eq_comm]

/-- **A build fails only at an undeclared item.** It returns an error exactly if some listed user
has a rating of an item that is not declared; the error names the first such rating, in the order
of the users and of their ratings. A packed snapshot, normalized or not, always builds. -/
theorem build_error_iff (h : b.Configured sim t.factory snapshot) (hsim : sim.Total) :
    ((∃ e, b.build.2.result = .error e) ↔
        ∃ user ∈ snapshot.userIds, ∃ r ∈ snapshot.ratingsOf user, r.item ∉ snapshot.itemIds) ∧
      (∀ e, b.build.2.result = .error e ↔ ∃ user item,
        snapshot.rated.find? (fun p => p.2 ∉ snapshot.itemIds) = some (user, item) ∧
          e = .refused (.unknownRatedItem user item)) ∧
      ∀ (l : List Rating) (n : Normalizer),
        snapshot = (PackedSnapshot.ofRatings l).toSnapshot ∨
            snapshot = ((PackedSnapshot.ofRatings l).normalized n).toSnapshot →
          ∃ m, b.build.2.result = .ok m := by
  refine ⟨?_, fun e => ?_, ?_⟩
  · rw [← isSome_stray?_iff, Option.isSome_iff_exists]
    constructor
    · rintro ⟨e, he⟩
      obtain ⟨stray, hstray, -⟩ := (build_result_eq_error_iff h hsim).mp he
      exact ⟨stray, hstray⟩
    · rintro ⟨stray, hstray⟩
      exact ⟨_, (build_result_eq_error_iff h hsim).mpr ⟨stray, hstray, rfl⟩⟩
  · rw [build_result_eq_error_iff h hsim, ← stray?_ofList]
    constructor
    · rintro ⟨⟨user, item⟩, hstray, he⟩
      exact ⟨user, item, hstray, he⟩
    · rintro ⟨user, item, hstray, he⟩
      exact ⟨(user, item), hstray, he⟩
  · rintro l n (rfl | rfl)
    · exact exists_build_eq_ok h hsim (PackedSnapshot.stray?_toSnapshot l)
    · exact exists_build_eq_ok h hsim (PackedSnapshot.stray?_toSnapshot _)

/-- Of two ratings of undeclared items the first one is named. -/
theorem build_error_of_two_strays :
    let snapshot : Snapshot :=
      { userIds := [5, 6]
        itemIds := [1]
        ratingsOf := fun user =>
          if user = 5 then [⟨5, 1, 4.0⟩, ⟨5, 9, 3.0⟩] else [⟨6, 8, 2.0⟩] }
    (((new.withSimilarity (.cosine 0.0)).withAccumulatorFactory
      (Truncation.factory ⟨10, 0.0⟩)).withNormalizedSnapshot snapshot).build.2.result =
        .error (.refused (.unknownRatedItem 5 9)) := by
  intro snapshot
  have h := build_error_iff (configured_new (.cosine 0.0) (Truncation.factory ⟨10, 0.0⟩) snapshot)
    (Similarity.total_ofFunction _ _ _)
  exact (h.2.1 _).mpr ⟨5, 9, by decide, rfl⟩

end Builder

end ItemNeighbors
