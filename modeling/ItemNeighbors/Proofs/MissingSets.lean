import ItemNeighbors.Proofs.ScoringRuns

/-!
# Sparse runs without the sets of users

That no sets were collected is noticed only when the set of some user is looked up, which takes an
item that somebody rated. So a sparse run goes through the items without ratings and is decided by
the first other one. It never gets as far as a question or a put.

- `BuildContext.Unrated`: an item has a vector, and nobody rated it.
- `Strategy.coRatedItems_of_no_sets`: what the look-up of the users of a vector comes to.
- `Strategy.run_scoreItems_of_unrated`: the turns of items that nobody rated.
- `Strategy.run_buildMatrix_of_halt`: the first item that ends a run.
- `Strategy.run_without_sets`: the outcome of a run.
-/

namespace ItemNeighbors

theorem SparseVector.isEmpty_iff_keys {v : SparseVector} : v.isEmpty = true ↔ v.keys = [] := by
  rw [isEmpty, keys, toList, List.map_eq_nil_iff, Array.toList_eq_nil_iff, Array.isEmpty_iff]

namespace BuildContext

/-- The item has a vector, which stores nothing. -/
def Unrated (c : BuildContext) (item : ItemId) : Prop :=
  ∃ vector, c.itemVector? item = some vector ∧ vector.isEmpty = true

theorem userItemSet_of_no_sets {c : BuildContext} (h : c.hasUserItemSets = false) (user : UserId) :
    c.userItemSet user = .error .setsNotCollected := by
  have hnone : c.userItems = none := Option.not_isSome_iff_eq_none.mp (Bool.eq_false_iff.mp h)
  rw [userItemSet, hnone]

end BuildContext

namespace Strategy

open Scoring

variable {α : Type} [ScoreAccumulator α] {s : Strategy} {sim : Similarity} {c : BuildContext}
  {acc : α} {item : ItemId} {j : Journal}

/-- The first user of a vector is one too many. -/
theorem coRatedItems_of_no_sets (h : c.hasUserItemSets = false) (vector : SparseVector) :
    coRatedItems c vector =
      if vector.isEmpty then .ok ∅ else .error .setsNotCollected := by
  unfold coRatedItems
  cases hkeys : vector.keys with
  | nil =>
    rw [if_pos (SparseVector.isEmpty_iff_keys.mpr hkeys)]
    rfl
  | cons user users =>
    have hrated : ¬ vector.isEmpty = true := by simp [SparseVector.isEmpty_iff_keys, hkeys]
    rw [if_neg hrated, List.foldlM_cons, BuildContext.userItemSet_of_no_sets h]
    rfl

/-- An item that nobody rated has no partners. -/
theorem run_scoreItem_of_unrated (hs : s.isSparse = true) (hsets : c.hasUserItemSets = false)
    (h : c.Unrated item) : (s.scoreItem sim c acc item).run j = (.ok acc, j) := by
  obtain ⟨vector, hvector, hempty⟩ := h
  have hpartners : s.partners c item vector = .ok [] := by
    rw [partners, if_pos hs, coRatedItems_of_no_sets hsets, if_pos hempty]
    show Except.ok (ItemSet.ofList ((∅ : Std.HashSet ItemId).toList.filter _)).toList = .ok []
    simp [ItemSet.ofList, ItemSet.sorted, ItemSet.toList]
  unfold scoreItem
  rw [run_bind_ok (run_require_ok (by rw [BuildContext.itemVector, hvector])),
    run_bind_ok (run_require_ok hpartners)]
  rfl

/-- The turn of an item without a vector. -/
theorem run_scoreItem_of_no_vector (h : c.itemVector? item = none) :
    (s.scoreItem sim c acc item).run j = (.error (.refused (.itemOutsideUniverse item)), j) := by
  unfold scoreItem
  exact run_bind_error (run_require_error (by rw [BuildContext.itemVector, h]))

/-- The turn of an item that somebody rated. -/
theorem run_scoreItem_of_rated (hs : s.isSparse = true) (hsets : c.hasUserItemSets = false)
    {vector : SparseVector} (hvector : c.itemVector? item = some vector)
    (hrated : vector.isEmpty = false) :
    (s.scoreItem sim c acc item).run j = (.error (.refused .setsNotCollected), j) := by
  have hpartners : s.partners c item vector = .error .setsNotCollected := by
    rw [partners, if_pos hs, coRatedItems_of_no_sets hsets, hrated]
    rfl
  unfold scoreItem
  rw [run_bind_ok (run_require_ok (by rw [BuildContext.itemVector, hvector]))]
  exact run_bind_error (run_require_error hpartners)

/-- Items that nobody rated are gone through without a trace. -/
theorem run_scoreItems_of_unrated (hs : s.isSparse = true) (hsets : c.hasUserItemSets = false)
    {items : List ItemId} (h : ∀ item ∈ items, c.Unrated item) :
    (items.foldlM (s.scoreItem sim c) acc).run j = (.ok acc, j) := by
  induction items with
  | nil => rfl
  | cons item items ih =>
    obtain ⟨hitem, hitems⟩ := List.forall_mem_cons.mp h
    rw [List.foldlM_cons, run_bind_ok (run_scoreItem_of_unrated hs hsets hitem), ih hitems]

/-- An item with a missing vector or a rating cannot be completed. -/
theorem exists_run_scoreItem_of_not_unrated (hs : s.isSparse = true)
    (hsets : c.hasUserItemSets = false) (h : ¬ c.Unrated item) :
    ∃ e, (s.scoreItem sim c acc item).run j = (.error e, j) := by
  cases hvector : c.itemVector? item with
  | none => exact ⟨_, run_scoreItem_of_no_vector hvector⟩
  | some vector =>
    have hrated : vector.isEmpty = false :=
      Bool.eq_false_iff.mpr fun hempty => h ⟨vector, hvector, hempty⟩
    exact ⟨_, run_scoreItem_of_rated hs hsets hvector hrated⟩

/-- If nobody rated any item, the run ends with what was there. -/
theorem run_buildMatrix_of_unrated (hs : s.isSparse = true) (hsets : c.hasUserItemSets = false)
    (h : ∀ item ∈ c.items.toList, c.Unrated item) :
    (s.buildMatrix sim c acc).run j =
      (.ok (ScoreAccumulator.toMatrix acc),
        { j with notes := j.notes.push (.scoredCommon j.filed s.pairKind) }) := by
  unfold buildMatrix
  simp only [hs, Bool.not_true, Bool.false_eq_true, if_false, if_true]
  rw [run_bind_ok (run_scoreItems_of_unrated hs hsets h), run_bind_ok run_get,
    run_bind_ok (run_note _)]
  rfl

/-- The first item that cannot be completed ends the run. -/
theorem run_buildMatrix_of_halt (hs : s.isSparse = true) (hsets : c.hasUserItemSets = false)
    (hitem : item ∈ c.items.toList)
    (hbefore : ∀ before ∈ c.items.toList, before < item → c.Unrated before) {e : BuildFailure}
    (h : (s.scoreItem sim c acc item).run j = (.error e, j)) :
    (s.buildMatrix sim c acc).run j = (.error e, j) := by
  obtain ⟨front, rest, hsplit⟩ := List.append_of_mem hitem
  have hsorted := ItemSet.toList_pairwise c.items
  rw [hsplit] at hsorted hbefore
  have hfront : ∀ before ∈ front, c.Unrated before := fun before hmem =>
    hbefore before (List.mem_append_left _ hmem)
      ((List.pairwise_append.mp hsorted).2.2 before hmem item List.mem_cons_self)
  unfold buildMatrix
  simp only [hs, Bool.not_true, Bool.false_eq_true, if_false, if_true]
  refine run_bind_error ?_
  rw [hsplit, List.foldlM_append, run_bind_ok (run_scoreItems_of_unrated hs hsets hfront)]
  exact run_bind_error h

/-- Among ascending items that are not all unrated there is a first one that is not. -/
theorem exists_first_not_unrated (h : ¬ ∀ item ∈ c.items.toList, c.Unrated item) :
    ∃ item ∈ c.items.toList, ¬ c.Unrated item ∧
      ∀ before ∈ c.items.toList, before < item → c.Unrated before := by
  classical
  obtain ⟨item, hfind⟩ : ∃ item,
      c.items.toList.find? (fun item => ¬ c.Unrated item) = some item := by
    rw [← Option.isSome_iff_exists, List.find?_isSome]
    simpa using h
  obtain ⟨hnot, front, rest, hsplit, hfront⟩ := List.find?_eq_some_iff_append.mp hfind
  have hsorted := ItemSet.toList_pairwise c.items
  rw [hsplit] at hsorted ⊢
  refine ⟨item, by simp, by simpa using hnot, fun before hmem hlt => ?_⟩
  rcases List.mem_append.mp hmem with hmem | hmem
  · simpa using hfront before hmem
  · -- nothing from the item on is below it
    rcases List.mem_cons.mp hmem with rfl | hmem
    · exact absurd hlt (UInt64.lt_irrefl _)
    · have hgt := (List.pairwise_cons.mp (List.pairwise_append.mp hsorted).2.1).1 before hmem
      exact absurd hlt (UInt64.lt_asymm hgt)

/-- **A sparse run without collected sets is decided by the first item that has no vector or a
rating.** In the first case it is outside of the universe, in the second one the sets are missing.
If there is no such item, the run ends with the accumulator as it was, whatever kind it is; a new
one that truncates has empty rows. Whatever happens, the similarity is not asked and nothing is
put. -/
theorem run_without_sets (hs : s.isSparse = true) (hsets : c.hasUserItemSets = false)
    (sim : Similarity) (acc : α) (asked : Nat) :
    ∃ result j, (s.buildMatrix sim c acc).run (.start asked) = (result, j) ∧
      j.asked = asked ∧ j.events = #[] ∧
      (∀ item ∈ c.items.toList, (∀ before ∈ c.items.toList, before < item → c.Unrated before) →
        (c.itemVector? item = none →
          result = .error (.refused (.itemOutsideUniverse item))) ∧
        ∀ vector, c.itemVector? item = some vector → vector.isEmpty = false →
          result = .error (.refused .setsNotCollected)) ∧
      ((∀ item ∈ c.items.toList, c.Unrated item) → result = .ok (ScoreAccumulator.toMatrix acc)) ∧
      ∀ (t : Truncation) members,
        (t.factory members).toMatrix.toList = members.toList.map fun item => (item, []) := by
  rcases hrun : (s.buildMatrix sim c acc).run (.start asked) with ⟨result, j⟩
  have hjournal : j.asked = asked ∧ j.events = #[] := by
    by_cases hall : ∀ item ∈ c.items.toList, c.Unrated item
    · rw [run_buildMatrix_of_unrated hs hsets hall] at hrun
      cases hrun
      exact ⟨rfl, rfl⟩
    · obtain ⟨item, hitem, hnot, hbefore⟩ := exists_first_not_unrated hall
      obtain ⟨e, herror⟩ : ∃ e, (s.scoreItem sim c acc item).run (.start asked) =
          (.error e, .start asked) := exists_run_scoreItem_of_not_unrated hs hsets hnot
      rw [run_buildMatrix_of_halt hs hsets hitem hbefore herror] at hrun
      cases hrun
      exact ⟨rfl, rfl⟩
  refine ⟨result, j, rfl, hjournal.1, hjournal.2, fun item hitem hbefore => ⟨?_, ?_⟩,
    fun hall => ?_, fun t members => NeighborAccumulator.toList_toMatrix_create⟩
  · intro hnone
    rw [run_buildMatrix_of_halt hs hsets hitem hbefore (run_scoreItem_of_no_vector hnone)] at hrun
    exact (congrArg Prod.fst hrun).symm
  · intro vector hvector hrated
    rw [run_buildMatrix_of_halt hs hsets hitem hbefore
      (run_scoreItem_of_rated hs hsets hvector hrated)] at hrun
    exact (congrArg Prod.fst hrun).symm
  · rw [run_buildMatrix_of_unrated hs hsets hall] at hrun
    exact (congrArg Prod.fst hrun).symm

/-- Of three items the second one is the first that somebody rated. That the third one has no vector
does not come up, and neither does that the similarity would fail. -/
theorem run_without_sets_of_rated_item :
    let c : BuildContext :=
      { items := .ofList [1, 2, 3]
        itemVectors := ((∅ : Std.HashMap ItemId SparseVector).insert 1 ∅).insert 2
          (.ofPairs [(7, 4.0)])
        userItems := none }
    let sim : Similarity := ⟨fun _ _ _ => none, true, true⟩
    ∃ j, (sparseSymmetric.buildMatrix sim c (Truncation.factory ⟨1, 0.0⟩ (.ofList [1, 2, 3]))).run
      (.start 5) = (.error (.refused .setsNotCollected), j) ∧ j.asked = 5 ∧ j.events = #[] := by
  intro c sim
  have hvector : ∀ item, c.itemVector? item =
      if 2 = item then some (.ofPairs [(7, 4.0)]) else if 1 = item then some ∅ else none := by
    intro item
    simp [c, BuildContext.itemVector?, Std.HashMap.getElem?_insert]
  have hbefore : ∀ before ∈ c.items.toList, before < 2 → c.Unrated before := by
    intro before hmem hlt
    obtain rfl : before = 1 := by
      have hmem : before = 1 ∨ before = 2 ∨ before = 3 := by simpa [c] using hmem
      rcases hmem with rfl | rfl | rfl
      · rfl
      · exact absurd hlt (by decide)
      · exact absurd hlt (by decide)
    exact ⟨∅, hvector 1, rfl⟩
  have hrated : (SparseVector.ofPairs [(7, 4.0)]).isEmpty = false := by
    rw [Bool.eq_false_iff, ne_eq, SparseVector.isEmpty_iff_keys]
    refine List.ne_nil_of_mem (a := 7) ?_
    simp [SparseVector.mem_keys_iff, SparseVector.get?_ofPairs]
  obtain ⟨result, j, hrun, hasked, hevents, hfirst, -⟩ := run_without_sets (s := sparseSymmetric)
    (c := c) rfl rfl sim (Truncation.factory ⟨1, 0.0⟩ (.ofList [1, 2, 3])) 5
  obtain rfl := (hfirst 2 (by simp [c]) hbefore).2 _ (hvector 2) hrated
  exact ⟨j, hrun, hasked, hevents⟩

end Strategy

end ItemNeighbors
