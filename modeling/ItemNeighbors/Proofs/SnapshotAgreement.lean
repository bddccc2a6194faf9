import ItemNeighbors.Proofs.BuildResults

/-!
# Snapshots that a build cannot tell apart

A build sees of a snapshot which items it declares, which users it lists and the last value of each
user for each item. Lists, repetitions and hash maps behind them leave no trace, neither in what a
builder can be asked afterwards nor in the scoring run.

- `Snapshot.Agree`: two snapshots declare, list and rate the same.
- `BuildContext.Alike`: two contexts answer alike.
- `BuildContext.alike_of_agree`: snapshots that agree are frozen into contexts that answer alike.
- `Strategy.buildMatrix_congr`: a run depends only on the answers of its context.
- `Builder.build_agree`: builds from snapshots that agree.
-/

namespace ItemNeighbors

/-- The snapshots declare the same items, list the same users and hold the same last values. -/
structure Snapshot.Agree (s s' : Snapshot) : Prop where
  itemIds : ∀ item, item ∈ s.itemIds ↔ item ∈ s'.itemIds
  userIds : ∀ user, user ∈ s.userIds ↔ user ∈ s'.userIds
  lastValue : ∀ user item, s.lastValue user item = s'.lastValue user item

namespace Snapshot.Agree

variable {s s' : Snapshot}

theorem ofList_itemIds (h : s.Agree s') :
    ItemSet.ofList s.itemIds = ItemSet.ofList s'.itemIds := by
  apply ItemSet.ext_mem
  intro item
  rw [ItemSet.mem_toList_ofList, ItemSet.mem_toList_ofList, h.itemIds]

theorem itemsOf (h : s.Agree s') (user : UserId) : s.itemsOf user = s'.itemsOf user := by
  apply ItemSet.ext_mem
  intro item
  rw [← isSome_lastValue, ← isSome_lastValue, h.lastValue]

end Snapshot.Agree

namespace PackedSnapshot

/-- Packed snapshots agree as soon as their last values do. -/
theorem agree_of_lastValue {l l' : List Rating}
    (h : ∀ user item, (ofRatings l).toSnapshot.lastValue user item =
      (ofRatings l').toSnapshot.lastValue user item) :
    (ofRatings l).toSnapshot.Agree (ofRatings l').toSnapshot where
  itemIds := by
    intro item
    rw [mem_itemIds_iff_lastValue, mem_itemIds_iff_lastValue]
    simp only [h]
  userIds := by
    intro user
    rw [mem_userIds_iff_lastValue, mem_userIds_iff_lastValue]
    simp only [h]
  lastValue := h

end PackedSnapshot

namespace BuildContext

/-- The contexts answer alike. -/
structure Alike (c c' : BuildContext) : Prop where
  items : c.items = c'.items
  itemVector? : ∀ item, c.itemVector? item = c'.itemVector? item
  userItemSet : ∀ user, c.userItemSet user = c'.userItemSet user

theorem Alike.itemVector {c c' : BuildContext} (h : c.Alike c') (item : ItemId) :
    c.itemVector item = c'.itemVector item := by
  rw [BuildContext.itemVector, BuildContext.itemVector, h.itemVector?]

/-- Snapshots that agree are frozen into contexts that answer alike. -/
theorem alike_of_agree {s s' : Snapshot} (hs : s.Agree s') {collect : Bool} {c c' : BuildContext}
    (h : c.Frozen s collect) (h' : c'.Frozen s' collect) (hitems : c.items = c'.items) :
    c.Alike c' where
  items := hitems
  itemVector? := by
    intro item
    by_cases hitem : item ∈ c.items.toList
    · have hitem' : item ∈ c'.items.toList := hitems ▸ hitem
      rw [h.itemVector?_eq hitem, h'.itemVector?_eq hitem']
      refine congrArg some (SparseVector.ext_get? ?_)
      intro user
      rw [h.get?_vectorOf item hitem, h'.get?_vectorOf item hitem', hs.lastValue]
      simp only [hs.userIds]
    · have hitem' : item ∉ c'.items.toList := hitems ▸ hitem
      rw [h.itemVector?_eq_none hitem, h'.itemVector?_eq_none hitem']
  userItemSet := by
    intro user
    rw [h.userItemSet, h'.userItemSet, hs.itemsOf]
    simp only [hs.userIds]

end BuildContext

namespace Strategy

variable {α : Type} [ScoreAccumulator α] {s : Strategy} {sim : Similarity} {c c' : BuildContext}

theorem coRatedItems_congr (h : c.Alike c') (vector : SparseVector) :
    coRatedItems c vector = coRatedItems c' vector := by
  simp only [coRatedItems, h.userItemSet]

theorem partners_congr (h : c.Alike c') (item : ItemId) (vector : SparseVector) :
    s.partners c item vector = s.partners c' item vector := by
  rw [partners, partners, coRatedItems_congr h, h.items]

theorem scorePair_congr (h : c.Alike c') (item : ItemId) (vector : SparseVector) :
    (s.scorePair sim c item vector : α → ItemId → Scoring α) =
      s.scorePair sim c' item vector := by
  funext acc other
  rw [scorePair, scorePair, h.itemVector]

theorem scoreItem_congr (h : c.Alike c') :
    (s.scoreItem sim c : α → ItemId → Scoring α) = s.scoreItem sim c' := by
  funext acc item
  simp only [scoreItem, h.itemVector, partners_congr h, scorePair_congr h]

/-- A run depends only on the answers of its context. -/
theorem buildMatrix_congr (h : c.Alike c') (acc : α) :
    s.buildMatrix sim c acc = s.buildMatrix sim c' acc := by
  rw [buildMatrix, buildMatrix, h.items, scoreItem_congr h]

end Strategy

namespace Builder

variable {b b' : Builder} {sim : Similarity} {t : Truncation} {snapshot snapshot' : Snapshot}

/-- The builders agree on all that can be asked of a finished build. -/
structure SameAnswers (b b' : Builder) : Prop where
  items : b.items = b'.items
  itemVector : ∀ item, b.itemVector item = b'.itemVector item
  userItemSet : ∀ user, b.userItemSet user = b'.userItemSet user

theorem sameAnswers_of_alike {c c' : BuildContext} (h : c.Alike c') (hb : b.state = .built c)
    (hb' : b'.state = .built c') : b.SameAnswers b' := by
  have hc : b.context = .ok c := by rw [context, hb]
  have hc' : b'.context = .ok c' := by rw [context, hb']
  constructor
  · rw [items, items, hc, hc']
    exact congrArg Except.ok h.items
  · intro item
    rw [itemVector, itemVector, hc, hc']
    exact congrArg Except.ok (h.itemVector? item)
  · intro user
    rw [userItemSet, userItemSet, hc, hc']
    exact h.userItemSet user

/-- Snapshots that agree are assembled into contexts that answer alike and into the same matrix,
with the same journal. -/
theorem exists_run_assemble_agree (hsim : sim.Total) (hs : snapshot.Agree snapshot')
    (hknown : snapshot.stray? (.ofList snapshot.itemIds) = none)
    (hknown' : snapshot'.stray? (.ofList snapshot'.itemIds) = none) (j : Journal) :
    ∃ c c' m j', c.Alike c' ∧
      (assemble sim t.factory snapshot).run j = (.ok (c, m), j') ∧
      (assemble sim t.factory snapshot').run j = (.ok (c', m), j') := by
  obtain ⟨c, hc, hitems, hassemble⟩ := exists_context sim t.factory hknown
  obtain ⟨c', hc', hitems', hassemble'⟩ := exists_context sim t.factory hknown'
  have halike : c.Alike c' := BuildContext.alike_of_agree hs hc hc' (by
    rw [hitems, hitems', hs.ofList_itemIds])
  have hrun := run_buildMatrix_of_frozen (t := t) hsim hc (announced sim j)
  -- the second run is the first one, with its context exchanged
  have hsame : (strategyOf sim).buildMatrix sim c' (t.factory c'.items) =
      (strategyOf sim).buildMatrix sim c (t.factory c.items) := by
    rw [← halike.items, ← Strategy.buildMatrix_congr halike]
  exact ⟨c, c', _, _, halike, hassemble j _ _ hrun, hassemble' j _ _ (hsame ▸ hrun)⟩

/-- A builder builds the same model from snapshots that agree. -/
theorem build_agree (h : b.Configured sim t.factory snapshot) (hsim : sim.Total)
    (hs : snapshot.Agree snapshot')
    (hknown : snapshot.stray? (.ofList snapshot.itemIds) = none)
    (hknown' : snapshot'.stray? (.ofList snapshot'.itemIds) = none) :
    (∃ m, b.build.2.result = .ok m ∧ b.build.1.items = .ok m.items) ∧
      b.build.2 = (b.withNormalizedSnapshot snapshot').build.2 ∧
      b.build.1.SameAnswers (b.withNormalizedSnapshot snapshot').build.1 := by
  have h' : (b.withNormalizedSnapshot snapshot').Configured sim t.factory snapshot' :=
    ⟨h.phase, h.similarity, h.factory, rfl⟩
  obtain ⟨c, c', m, j, halike, hrun, hrun'⟩ :=
    exists_run_assemble_agree (t := t) hsim hs hknown hknown' (.start b.asked)
  have hbuild := build_of_run_eq_ok h hrun
  have hbuild' := build_of_run_eq_ok h' hrun'
  rw [hbuild, hbuild']
  refine ⟨⟨_, rfl, rfl⟩, ?_, sameAnswers_of_alike halike rfl rfl⟩
  rw [halike.items]
  rfl

end Builder

end ItemNeighbors
