import ItemNeighbors.Proofs.ScoringRuns
import ItemNeighbors.Proofs.Transpositions

/-!
# Items with a common user

The sparse strategies find the partners of an item through the sets of its users. In a context
that was frozen from a transposition these are exactly the items whose vectors share a key with
its own, and nothing that a run looks up is missing.

- `SparseVector.overlaps`: two vectors have a common key.
- `Strategy.scores`: two items are scored at the turn of the first.
- `Strategy.exists_coRatedItems_eq_ok`: what the sets of the users of a vector hold together.
- `BuildContext.Frozen`: what a frozen context answers.
- `BuildContext.Frozen.partners_eq`: the partners of an item, for all strategies.
- `BuildContext.Frozen.scorable`: a run on a frozen context finds everything.
-/

namespace ItemNeighbors

/-- Whether two vectors have a common key. -/
def SparseVector.overlaps (a b : SparseVector) : Bool :=
  a.keys.any b.containsKey

theorem SparseVector.overlaps_iff {a b : SparseVector} :
    a.overlaps b = true ↔ ∃ key ∈ a.keys, key ∈ b.keys := by
  simp only [overlaps, List.any_eq_true, containsKey_iff]

theorem SparseVector.overlaps_comm (a b : SparseVector) : a.overlaps b = b.overlaps a := by
  rw [Bool.eq_iff_iff, overlaps_iff, overlaps_iff]
  constructor
  · rintro ⟨key, ha, hb⟩
    exact ⟨key, hb, ha⟩
  · rintro ⟨key, hb, ha⟩
    exact ⟨key, ha, hb⟩

/-- The items of a user, none for an unknown user. -/
def BuildContext.setOf (c : BuildContext) (user : UserId) : ItemSet :=
  match c.userItemSet user with
  | .ok (some items) => items
  | _ => ∅

namespace Strategy

/-- Whether a strategy scores two items at the turn of the first. -/
def scores (s : Strategy) (c : BuildContext) (item other : ItemId) : Bool :=
  s.admits item other && (!s.isSparse || (c.vectorOf item).overlaps (c.vectorOf other))

/-! ## The sets of the users of a vector -/

/-- Looking up the sets of some users adds their items to what was found before. -/
theorem exists_foldlM_found_eq_ok {c : BuildContext}
    (hsets : ∀ user, ∃ set, c.userItemSet user = .ok set) (users : List UserId)
    (found : Std.HashSet ItemId) :
    ∃ found', users.foldlM (fun found user =>
        match c.userItemSet user with
        | .ok (some items) => Except.ok (found.insertMany items.toList)
        | .ok none => .ok found
        | .error e => .error e) found = .ok found' ∧
      ∀ item, item ∈ found' ↔
        item ∈ found ∨ ∃ user ∈ users, item ∈ (c.setOf user).toList := by
  induction users generalizing found with
  | nil => exact ⟨found, rfl, by simp⟩
  | cons user users ih =>
    obtain ⟨set, hset⟩ := hsets user
    rw [List.foldlM_cons, hset]
    cases set with
    | none =>
      have hempty : (c.setOf user).toList = [] := by
        rw [BuildContext.setOf, hset]
        rfl
      obtain ⟨found', hok, hmem⟩ := ih found
      refine ⟨found', hok, ?_⟩
      intro item
      simp [hmem, hempty]
    | some items =>
      have hitems : c.setOf user = items := by
        rw [BuildContext.setOf, hset]
      obtain ⟨found', hok, hmem⟩ := ih (found.insertMany items.toList)
      refine ⟨found', hok, ?_⟩
      intro item
      simp [hmem, hitems, or_assoc]

/-- With all sets collected the items of the users of a vector are found. -/
theorem exists_coRatedItems_eq_ok {c : BuildContext}
    (hsets : ∀ user, ∃ set, c.userItemSet user = .ok set) (vector : SparseVector) :
    ∃ found, coRatedItems c vector = .ok found ∧
      ∀ item, item ∈ found ↔ ∃ user ∈ vector.keys, item ∈ (c.setOf user).toList := by
  obtain ⟨found, hok, hmem⟩ := exists_foldlM_found_eq_ok hsets vector.keys ∅
  exact ⟨found, hok, fun item => by simp [hmem]⟩

/-- The partners of a sparse strategy are those admitted items that a user of the vector has. -/
theorem partners_eq_of_isSparse {s : Strategy} {c : BuildContext} {item : ItemId}
    {vector : SparseVector} (hsparse : s.isSparse = true)
    (hsets : ∀ user, ∃ set, c.userItemSet user = .ok set) {l : List ItemId}
    (hl : l.Pairwise (· < ·))
    (hmem : ∀ other, other ∈ l ↔ s.admits item other = true ∧
      ∃ user ∈ vector.keys, other ∈ (c.setOf user).toList) :
    s.partners c item vector = .ok l := by
  obtain ⟨found, hok, hfound⟩ := exists_coRatedItems_eq_ok hsets vector
  have heq : (ItemSet.ofList (found.toList.filter (s.admits item))).toList = l := by
    refine ItemSet.list_ext (ItemSet.toList_pairwise _) hl fun other => ?_
    rw [ItemSet.mem_toList_ofList, List.mem_filter, Std.HashSet.mem_toList, hfound, hmem,
      and_comm]
  rw [partners, if_pos hsparse, hok, ← heq]
  rfl

/-- The partners of a strategy that scores all pairs are all admitted items. -/
theorem partners_eq_of_not_isSparse {s : Strategy} {c : BuildContext} {item : ItemId}
    {vector : SparseVector} (hsparse : s.isSparse = false) :
    s.partners c item vector = .ok (c.items.toList.filter (s.admits item)) := by
  rw [partners, if_neg (by simp [hsparse])]
  rfl

end Strategy

namespace BuildContext

/-! ## Frozen contexts -/

/-- What a context answers that was frozen from the transposition of a snapshot. -/
structure Frozen (s : Snapshot) (collect : Bool) (c : BuildContext) : Prop where
  isSome_itemVector? : ∀ item, (c.itemVector? item).isSome = true ↔ item ∈ c.items.toList
  get?_vectorOf : ∀ item ∈ c.items.toList, ∀ user,
    (c.vectorOf item).get? user = if user ∈ s.userIds then s.lastValue user item else none
  userItemSet : ∀ user, c.userItemSet user =
    if collect then .ok (if user ∈ s.userIds then some (s.itemsOf user) else none)
    else .error .setsNotCollected
  declared : ∀ user ∈ s.userIds, ∀ item ∈ (s.itemsOf user).toList, item ∈ c.items.toList

theorem itemVector?_freeze {items : ItemSet} {t : TransposedRatings} {item : ItemId} :
    (freeze items t).itemVector? item = t.itemRatings[item]?.map RatingAccumulator.freeze :=
  Std.HashMap.getElem?_map

theorem userItemSet_freeze_of_some {items : ItemSet} {t : TransposedRatings}
    {sets : Std.HashMap UserId ItemSet} (h : t.userItems = some sets) (user : UserId) :
    (freeze items t).userItemSet user = .ok sets[user]? := by
  have hsets : (freeze items t).userItems = some sets := h
  rw [userItemSet, hsets]

theorem userItemSet_freeze_of_none {items : ItemSet} {t : TransposedRatings}
    (h : t.userItems = none) (user : UserId) :
    (freeze items t).userItemSet user = .error .setsNotCollected := by
  have hsets : (freeze items t).userItems = none := h
  rw [userItemSet, hsets]

/-- What was collected is what the frozen context answers. -/
theorem frozen_of_collected {s : Snapshot} {items : ItemSet} {collect : Bool}
    {t : TransposedRatings}
    (h : TransposedRatings.Collected s items collect s.userIds t)
    (hknown : s.stray? items = none) : Frozen s collect (freeze items t) where
  isSome_itemVector? := by
    intro item
    rw [itemVector?_freeze, Option.isSome_map, ← Std.HashMap.contains_eq_isSome_getElem?,
      h.contains, ItemSet.contains_iff]
    rfl
  get?_vectorOf := by
    intro item hitem user
    have hcontains : t.itemRatings.contains item = true :=
      (h.contains item).trans (ItemSet.contains_iff.mpr hitem)
    rw [Std.HashMap.contains_eq_isSome_getElem?, Option.isSome_iff_exists] at hcontains
    obtain ⟨acc, hacc⟩ := hcontains
    rw [vectorOf, itemVector?_freeze, hacc, Option.map_some, Option.getD_some,
      RatingAccumulator.get?_freeze, h.value item acc hacc]
  userItemSet := by
    intro user
    -- whether there are sets at all tells whether they were to be collected
    have hsome := h.collected
    cases hsets : t.userItems with
    | none =>
      rw [hsets] at hsome
      obtain rfl : false = collect := hsome
      exact userItemSet_freeze_of_none hsets user
    | some sets =>
      rw [hsets] at hsome
      obtain rfl : true = collect := hsome
      rw [userItemSet_freeze_of_some hsets, h.itemsOf sets hsets user]
      rfl
  declared := by
    intro user huser item hitem
    obtain ⟨r, hr, rfl⟩ := Snapshot.mem_itemsOf.mp hitem
    exact ItemSet.contains_iff.mp (Snapshot.stray?_eq_none_iff.mp hknown user huser r hr)

/-- A transposition that succeeds freezes into such a context. -/
theorem frozen_of_transpose {s : Snapshot} {items : ItemSet} {collect : Bool}
    {t : TransposedRatings} (h : s.transpose items collect = .ok t) :
    Frozen s collect (freeze items t) := by
  refine frozen_of_collected (Snapshot.collected_of_transpose h) ?_
  cases hstray : s.stray? items with
  | none => rfl
  | some stray =>
    rw [Snapshot.transpose_eq_error hstray] at h
    cases h

namespace Frozen

variable {s : Snapshot} {collect : Bool} {c : BuildContext} {item other : ItemId} {user : UserId}

/-- The vector of a member. -/
theorem itemVector?_eq (h : c.Frozen s collect) (hitem : item ∈ c.items.toList) :
    c.itemVector? item = some (c.vectorOf item) :=
  itemVector?_eq_some ((h.isSome_itemVector? item).mpr hitem)

theorem itemVector?_eq_none (h : c.Frozen s collect) (hitem : item ∉ c.items.toList) :
    c.itemVector? item = none := by
  rw [← Option.not_isSome_iff_eq_none]
  exact fun hsome => hitem ((h.isSome_itemVector? item).mp hsome)

/-- The users of a vector are the listed users who rated the item. -/
theorem mem_keys_vectorOf (h : c.Frozen s collect) (hitem : item ∈ c.items.toList) :
    user ∈ (c.vectorOf item).keys ↔ user ∈ s.userIds ∧ item ∈ (s.itemsOf user).toList := by
  rw [SparseVector.mem_keys_iff, ← Option.isSome_iff_exists, h.get?_vectorOf item hitem]
  by_cases huser : user ∈ s.userIds
  · rw [if_pos huser, Snapshot.isSome_lastValue]
    simp [huser]
  · simp [huser]

theorem mem_setOf (h : c.Frozen s true) :
    item ∈ (c.setOf user).toList ↔ user ∈ s.userIds ∧ item ∈ (s.itemsOf user).toList := by
  rw [setOf, h.userItemSet, if_pos rfl]
  by_cases huser : user ∈ s.userIds
  · rw [if_pos huser]
    simp [huser]
  · rw [if_neg huser]
    simp only [huser, false_and, iff_false]
    exact List.not_mem_nil

/-- An item is in the set of a user exactly if he is in its vector. -/
theorem mem_setOf_iff_mem_keys (h : c.Frozen s true) (hitem : item ∈ c.items.toList) :
    item ∈ (c.setOf user).toList ↔ user ∈ (c.vectorOf item).keys := by
  rw [h.mem_setOf, h.mem_keys_vectorOf hitem]

/-- The sets of users hold members of the universe only. -/
theorem mem_items_of_mem_setOf (h : c.Frozen s true) (hmem : item ∈ (c.setOf user).toList) :
    item ∈ c.items.toList := by
  obtain ⟨huser, hitem⟩ := h.mem_setOf.mp hmem
  exact h.declared user huser item hitem

/-- The partners of an item, whatever the strategy. -/
theorem partners_eq {st : Strategy} (h : c.Frozen s collect)
    (hcollect : st.isSparse = true → collect = true) (item : ItemId) :
    st.partners c item (c.vectorOf item) = .ok (c.items.toList.filter (st.scores c item)) := by
  cases hsparse : st.isSparse with
  | false =>
    rw [Strategy.partners_eq_of_not_isSparse hsparse]
    refine congrArg Except.ok (List.filter_congr fun other _ => ?_)
    simp [Strategy.scores, hsparse]
  | true =>
    obtain rfl : collect = true := hcollect hsparse
    refine Strategy.partners_eq_of_isSparse hsparse
      (fun user => ⟨_, (h.userItemSet user).trans (if_pos rfl)⟩)
      ((ItemSet.toList_pairwise _).filter _) ?_
    intro other
    rw [List.mem_filter, Strategy.scores, hsparse, Bool.and_eq_true, Bool.not_true,
      Bool.false_or, SparseVector.overlaps_iff]
    constructor
    · rintro ⟨hother, hadmits, user, huser, hshared⟩
      exact ⟨hadmits, user, huser, (h.mem_setOf_iff_mem_keys hother).mpr hshared⟩
    · rintro ⟨hadmits, user, huser, hset⟩
      -- no set holds more than the universe, since all that was rated is declared
      have hother : other ∈ c.items.toList := h.mem_items_of_mem_setOf hset
      exact ⟨hother, hadmits, user, huser, (h.mem_setOf_iff_mem_keys hother).mp hset⟩

theorem partnersOf_eq {st : Strategy} (h : c.Frozen s collect)
    (hcollect : st.isSparse = true → collect = true) (item : ItemId) :
    st.partnersOf c item = c.items.toList.filter (st.scores c item) := by
  rw [Strategy.partnersOf, h.partners_eq hcollect]

/-- A run on a frozen context finds everything it looks up, if sets were collected for a strategy
that needs them. -/
theorem scorable {st : Strategy} (h : c.Frozen s collect)
    (hcollect : st.isSparse = true → collect = true) : st.Scorable c c.items := by
  intro item hitem
  have hmem : ∀ other ∈ st.partnersOf c item, other ∈ c.items.toList := by
    intro other hother
    rw [h.partnersOf_eq hcollect] at hother
    exact (List.mem_filter.mp hother).1
  exact {
    vector := (h.isSome_itemVector? item).mpr hitem
    partners := by rw [h.partnersOf_eq hcollect, h.partners_eq hcollect]
    otherVector := fun other hother => (h.isSome_itemVector? other).mpr (hmem other hother)
    mem := fun other hother => ⟨hitem, hmem other hother⟩ }

/-- The pairs of a run, in order. -/
theorem pairs_eq {st : Strategy} (h : c.Frozen s collect)
    (hcollect : st.isSparse = true → collect = true) :
    st.pairs c = c.items.toList.flatMap fun item =>
      (c.items.toList.filter (st.scores c item)).map (item, ·) := by
  simp only [Strategy.pairs, h.partnersOf_eq hcollect]

end Frozen

end BuildContext

end ItemNeighbors
