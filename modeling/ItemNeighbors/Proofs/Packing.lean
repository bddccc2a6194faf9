import ItemNeighbors.Proofs.Transpositions
import ItemNeighbors.Snapshot.Packed

/-!
# What packing keeps of a list of ratings

Packing groups ratings by user and loses nothing: users and items come in the order of their first
rating, and each user has his ratings in their order.

- `Rating.lastValue`: the last value of a user for an item.
- `PackedSnapshot.Packs`: what is in a packed snapshot after some ratings.
- `PackedSnapshot.userIds_ofRatings`, `PackedSnapshot.itemIds_ofRatings`,
  `PackedSnapshot.ratingsOf_ofRatings`: the three views of it.
- `PackedSnapshot.ratingsOf_normalized`: a normalized snapshot keeps users and items apart, too.
- `PackedSnapshot.stray?_toSnapshot`: a packed snapshot declares whatever was rated.
- `PackedSnapshot.lastValue_toSnapshot`, `PackedSnapshot.lastValue_normalized`: the last values
  that a build gets to see.
-/

namespace ItemNeighbors

/-- One more element is kept if it is new. -/
theorem eraseDups_concat {α : Type} [BEq α] [LawfulBEq α] (l : List α) (a : α) :
    (l ++ [a]).eraseDups = if l.contains a then l.eraseDups else l.eraseDups ++ [a] := by
  rw [List.eraseDups_append, List.removeAll, List.filter_cons, List.filter_nil]
  by_cases ha : a ∈ l
  · simp [ha]
  · simp [ha, List.eraseDups_cons]

theorem nodup_eraseDups {α : Type} [BEq α] [LawfulBEq α] (l : List α) : l.eraseDups.Nodup := by
  induction l using List.reverseRecOn with
  | nil => simp
  | append_singleton l a ih =>
    rw [eraseDups_concat]
    split
    · exact ih
    · rename_i ha
      rw [List.nodup_append]
      refine ⟨ih, by simp, ?_⟩
      intro b hb c hc hbc
      obtain rfl : c = a := by simpa using hc
      refine ha ?_
      rw [List.contains_iff_mem, ← hbc]
      exact List.mem_eraseDups.mp hb

namespace Rating

/-- The last value that a user gave to an item in a list of ratings. -/
def lastValue (l : List Rating) (user : UserId) (item : ItemId) : Option Float :=
  (l.findRev? fun r => r.user == user && r.item == item).map (·.value)

theorem isSome_lastValue {l : List Rating} {user : UserId} {item : ItemId} :
    (lastValue l user item).isSome = true ↔ ∃ r ∈ l, r.user = user ∧ r.item = item := by
  simp [lastValue]

end Rating

namespace PackedSnapshot

/-! ## Packing -/

/-- The snapshot holds these ratings and no others. -/
structure Packs (l : List Rating) (s : PackedSnapshot) : Prop where
  userIds : s.userIds.toList = (l.map (·.user)).eraseDups
  itemIds : s.itemIds.toList = (l.map (·.item)).eraseDups
  knownItems : ∀ item, s.knownItems.contains item = (l.map (·.item)).contains item
  knownUsers : ∀ user, s.ratingsByUser.contains user = (l.map (·.user)).contains user
  ratingsOf : ∀ user, s.ratingsOf user = l.filter (·.user == user)
  numRatings : s.numRatings = l.length

theorem packs_empty : Packs [] empty where
  userIds := rfl
  itemIds := rfl
  knownItems := fun item => by simp [empty]
  knownUsers := fun user => by simp [empty]
  ratingsOf := fun user => by simp [empty, ratingsOf]
  numRatings := rfl

/-- Packing one more rating. -/
theorem Packs.add {l : List Rating} {s : PackedSnapshot} (h : Packs l s) (r : Rating) :
    Packs (l ++ [r]) (s.add r) where
  -- a user or an item is appended at its first rating, as the removal of duplicates does
  userIds := by
    show (if s.ratingsByUser.contains r.user then s.userIds else s.userIds.push r.user).toList = _
    rw [List.map_append, List.map_singleton, eraseDups_concat, h.knownUsers]
    split
    · exact h.userIds
    · rw [Array.toList_push, h.userIds]
  itemIds := by
    show (if s.knownItems.contains r.item then s.itemIds else s.itemIds.push r.item).toList = _
    rw [List.map_append, List.map_singleton, eraseDups_concat, h.knownItems]
    split
    · exact h.itemIds
    · rw [Array.toList_push, h.itemIds]
  knownItems := by
    intro item
    show (s.knownItems.insert r.item).contains item = _
    rw [Std.HashSet.contains_insert, h.knownItems, List.map_append, List.map_singleton]
    by_cases hitem : r.item = item
    · simp [hitem]
    · simp [hitem, Ne.symm hitem]
  knownUsers := by
    intro user
    show (s.ratingsByUser.alter r.user _).contains user = _
    rw [Std.HashMap.contains_alter, h.knownUsers, List.map_append, List.map_singleton]
    by_cases huser : r.user = user
    · simp [huser]
    · simp [huser, Ne.symm huser]
  ratingsOf := by
    intro user
    show ((s.ratingsByUser.alter r.user fun ratings =>
      some ((ratings.getD #[]).push r)).getD user #[]).toList = _
    have hbefore : (s.ratingsByUser.getD user #[]).toList = l.filter (·.user == user) :=
      h.ratingsOf user
    rw [Std.HashMap.getD_alter, List.filter_append, ← hbefore]
    by_cases huser : r.user = user
    · simp [huser, Std.HashMap.getD_eq_getD_getElem?]
    · simp [huser]
  numRatings := by
    show s.numRatings + 1 = _
    rw [h.numRatings, List.length_append, List.length_singleton]

/-- Packing a list of ratings. -/
theorem packs_ofRatings (l : List Rating) : Packs l (ofRatings l) := by
  induction l using List.reverseRecOn with
  | nil => exact packs_empty
  | append_singleton l r ih =>
    rw [show ofRatings (l ++ [r]) = (ofRatings l).add r by simp [ofRatings]]
    exact ih.add r

theorem userIds_ofRatings (l : List Rating) :
    (ofRatings l).userIds.toList = (l.map (·.user)).eraseDups :=
  (packs_ofRatings l).userIds

theorem itemIds_ofRatings (l : List Rating) :
    (ofRatings l).itemIds.toList = (l.map (·.item)).eraseDups :=
  (packs_ofRatings l).itemIds

theorem ratingsOf_ofRatings (l : List Rating) (user : UserId) :
    (ofRatings l).ratingsOf user = l.filter (·.user == user) :=
  (packs_ofRatings l).ratingsOf user

theorem nodup_userIds_ofRatings (l : List Rating) : (ofRatings l).userIds.toList.Nodup := by
  rw [userIds_ofRatings]
  exact nodup_eraseDups _

theorem mem_userIds_ofRatings {l : List Rating} {user : UserId} :
    user ∈ (ofRatings l).userIds.toList ↔ ∃ r ∈ l, r.user = user := by
  rw [userIds_ofRatings, List.mem_eraseDups, List.mem_map]

theorem mem_itemIds_ofRatings {l : List Rating} {item : ItemId} :
    item ∈ (ofRatings l).itemIds.toList ↔ ∃ r ∈ l, r.item = item := by
  rw [itemIds_ofRatings, List.mem_eraseDups, List.mem_map]

/-! ## Ratings that come user by user -/

/-- Of ratings that come user by user, those of a user are his block. -/
theorem filter_flatMap_of_user {users : List UserId} {f : UserId → List Rating}
    (hnodup : users.Nodup) (huser : ∀ u ∈ users, ∀ r ∈ f u, r.user = u) (user : UserId) :
    (users.flatMap f).filter (·.user == user) = if user ∈ users then f user else [] := by
  induction users with
  | nil => rfl
  | cons u users ih =>
    obtain ⟨hu, hnodup⟩ := List.nodup_cons.mp hnodup
    have hblock : ∀ r ∈ f u, r.user = u := huser u (by simp)
    rw [List.flatMap_cons, List.filter_append,
      ih hnodup fun v hv => huser v (List.mem_cons_of_mem u hv)]
    by_cases heq : u = user
    · subst heq
      have hall : (f u).filter (·.user == u) = f u :=
        List.filter_eq_self.mpr fun r hr => by simp [hblock r hr]
      simp [hall, hu]
    · have hnone : (f u).filter (·.user == user) = [] :=
        List.filter_eq_nil_iff.mpr fun r hr => by simp [hblock r hr, heq]
      simp [hnone, Ne.symm heq]

/-- Ratings that come user by user are packed with the users in their order. -/
theorem userIds_ofRatings_flatMap {users : List UserId} {f : UserId → List Rating}
    (hnodup : users.Nodup) (huser : ∀ u ∈ users, ∀ r ∈ f u, r.user = u)
    (hne : ∀ u ∈ users, f u ≠ []) : (ofRatings (users.flatMap f)).userIds.toList = users := by
  rw [userIds_ofRatings]
  induction users with
  | nil => rfl
  | cons u users ih =>
    obtain ⟨hu, hnodup⟩ := List.nodup_cons.mp hnodup
    obtain ⟨r, rest, hblock⟩ := List.exists_cons_of_ne_nil (hne u (by simp))
    have hblockUser : ∀ r' ∈ r :: rest, r'.user = u := fun r' hr' =>
      huser u (by simp) r' (hblock ▸ hr')
    have hrest : ((users.flatMap f).map (·.user)).eraseDups = users :=
      ih hnodup (fun v hv => huser v (by simp [hv])) fun v hv => hne v (by simp [hv])
    -- the first rating of the block lists the user, and nothing else in the list is his
    have hown : (rest.map (·.user)).filter (fun v => !v == u) = [] := by
      simp only [List.filter_eq_nil_iff, List.mem_map]
      rintro _ ⟨r', hr', rfl⟩
      simp [hblockUser r' (by simp [hr'])]
    have hothers : ((users.flatMap f).map (·.user)).filter (fun v => !v == u) =
        (users.flatMap f).map (·.user) := by
      simp only [List.filter_eq_self, List.mem_map, List.mem_flatMap]
      rintro _ ⟨r', ⟨v, hv, hr'⟩, rfl⟩
      rw [huser v (by simp [hv]) r' hr']
      simpa using fun heq : v = u => hu (heq ▸ hv)
    rw [List.flatMap_cons, hblock, List.cons_append, List.map_cons, List.eraseDups_cons,
      List.map_append, hblockUser r (by simp), List.filter_append, hown, hothers,
      List.nil_append, hrest]

/-! ## Normalizing -/

/-- The normalized ratings of a user are his. -/
theorem user_of_mem_normalizedRatingsOf {s : PackedSnapshot} {n : Normalizer} {user : UserId}
    {r : Rating} (hr : r ∈ s.normalizedRatingsOf n user) : r.user = user := by
  obtain ⟨entry, -, rfl⟩ := List.mem_map.mp hr
  rfl

/-- A user without ratings has no normalized ratings either. -/
theorem normalizedRatingsOf_of_not_mem {l : List Rating} {n : Normalizer} {user : UserId}
    (h : user ∉ (ofRatings l).userIds.toList) :
    (ofRatings l).normalizedRatingsOf n user = [] := by
  have hnone : (ofRatings l).ratingsOf user = [] := by
    rw [ratingsOf_ofRatings, List.filter_eq_nil_iff]
    intro r hr huser
    exact h (mem_userIds_ofRatings.mpr ⟨r, hr, by simpa using huser⟩)
  -- normalizing keeps the keys, and the vector of such a user has none
  have hkeys : (n.normalize ((ofRatings l).userVector user)
      ((ofRatings l).userVector user)).keys = [] := by
    rw [Normalizer.keys_normalize, userVector, hnone]
    simp [SparseVector.ofPairs, SparseVector.keys, SparseVector.toList, SparseVector.sortedByKey]
  rw [normalizedRatingsOf, List.map_eq_nil_iff]
  exact List.map_eq_nil_iff.mp hkeys

/-- The ratings of a user in a normalized snapshot are his normalized ratings. -/
theorem ratingsOf_normalized (l : List Rating) (n : Normalizer) (user : UserId) :
    ((ofRatings l).normalized n).ratingsOf user = (ofRatings l).normalizedRatingsOf n user := by
  rw [normalized, ratingsOf_ofRatings, filter_flatMap_of_user (nodup_userIds_ofRatings l)
    fun _ _ _ hr => user_of_mem_normalizedRatingsOf hr]
  split
  · rfl
  · rename_i huser
    exact (normalizedRatingsOf_of_not_mem huser).symm

/-! ## The view of a build -/

/-- A packed snapshot declares whatever was rated. -/
theorem stray?_toSnapshot (l : List Rating) :
    (ofRatings l).toSnapshot.stray? (ItemSet.ofList (ofRatings l).itemIds.toList) = none := by
  rw [Snapshot.stray?_eq_none_iff]
  intro user _ r hr
  have hr' : r ∈ l.filter (·.user == user) := by
    rw [← ratingsOf_ofRatings]
    exact hr
  rw [ItemSet.contains_iff, ItemSet.mem_toList_ofList, mem_itemIds_ofRatings]
  exact ⟨r, (List.mem_filter.mp hr').1, rfl⟩

/-- The last value of a packed snapshot is the last one in the list. -/
theorem lastValue_toSnapshot (l : List Rating) (user : UserId) (item : ItemId) :
    (ofRatings l).toSnapshot.lastValue user item = Rating.lastValue l user item := by
  show (((ofRatings l).ratingsOf user).findRev? (·.item == item)).map (·.value) = _
  rw [ratingsOf_ofRatings, findRev?_filter, Rating.lastValue]

/-- The vector of a user holds his last values. -/
theorem get?_userVector (l : List Rating) (user : UserId) (item : ItemId) :
    ((ofRatings l).userVector user).get? item = Rating.lastValue l user item := by
  rw [userVector, SparseVector.get?_ofPairs, findRev?_map, Option.map_map,
    ← lastValue_toSnapshot]
  rfl

/-- The last value of a normalized snapshot is that of the normalized vector. -/
theorem lastValue_normalized (l : List Rating) (n : Normalizer) (user : UserId) (item : ItemId) :
    ((ofRatings l).normalized n).toSnapshot.lastValue user item =
      (n.normalize ((ofRatings l).userVector user)
        ((ofRatings l).userVector user)).get? item := by
  show ((((ofRatings l).normalized n).ratingsOf user).findRev? (·.item == item)).map (·.value) = _
  rw [ratingsOf_normalized, normalizedRatingsOf, findRev?_map, Option.map_map,
    ← SparseVector.findRev?_toList]
  rfl

/-- A user is listed exactly if he rated something. -/
theorem mem_userIds_iff_lastValue {l : List Rating} {user : UserId} :
    user ∈ (ofRatings l).toSnapshot.userIds ↔
      ∃ item, ((ofRatings l).toSnapshot.lastValue user item).isSome = true := by
  show user ∈ (ofRatings l).userIds.toList ↔ _
  simp only [mem_userIds_ofRatings, lastValue_toSnapshot, Rating.isSome_lastValue]
  constructor
  · rintro ⟨r, hr, huser⟩
    exact ⟨r.item, r, hr, huser, rfl⟩
  · rintro ⟨item, r, hr, huser, -⟩
    exact ⟨r, hr, huser⟩

/-- An item is declared exactly if someone rated it. -/
theorem mem_itemIds_iff_lastValue {l : List Rating} {item : ItemId} :
    item ∈ (ofRatings l).toSnapshot.itemIds ↔
      ∃ user, ((ofRatings l).toSnapshot.lastValue user item).isSome = true := by
  show item ∈ (ofRatings l).itemIds.toList ↔ _
  simp only [mem_itemIds_ofRatings, lastValue_toSnapshot, Rating.isSome_lastValue]
  constructor
  · rintro ⟨r, hr, hitem⟩
    exact ⟨r.user, r, hr, rfl, hitem⟩
  · rintro ⟨user, r, hr, -, hitem⟩
    exact ⟨r, hr, hitem⟩

end PackedSnapshot

end ItemNeighbors
