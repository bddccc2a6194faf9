import ItemNeighbors.BuildContext
import ItemNeighbors.Proofs.Lookups

/-!
# What a transposition collects

A transposition stops at the first rating of an item outside the universe. If there is none, each
item has the last value of every listed user, and each listed user has the items he rated.

- `Snapshot.rated`, `Snapshot.stray?`: the rated items in order, and the first of them outside a
  universe.
- `TransposedRatings.Collected`: what has been collected after some users.
- `Snapshot.transpose_eq_error`, `Snapshot.exists_transpose_eq_ok`: the two outcomes.
- `TransposedRatings.Exact`: the collected data by the ratings of the listed users.
- `Snapshot.transpose_exact`: the outcome for all snapshots and universes.
-/

namespace ItemNeighbors

namespace Snapshot

/-- The items that the listed users rated, with their users, in the order in which they are
taken. -/
def rated (s : Snapshot) : List (UserId × ItemId) :=
  s.userIds.flatMap fun user => (s.ratingsOf user).map fun r => (user, r.item)

/-- The first rated item outside a universe, with its user. -/
def stray? (s : Snapshot) (items : ItemSet) : Option (UserId × ItemId) :=
  s.rated.find? fun p => !items.contains p.2

/-- The last value that a user gave to an item. -/
def lastValue (s : Snapshot) (user : UserId) (item : ItemId) : Option Float :=
  ((s.ratingsOf user).findRev? (·.item == item)).map (·.value)

/-- The items that a user rated. -/
def itemsOf (s : Snapshot) (user : UserId) : ItemSet :=
  .ofList ((s.ratingsOf user).map (·.item))

theorem mem_itemsOf {s : Snapshot} {user : UserId} {item : ItemId} :
    item ∈ (s.itemsOf user).toList ↔ ∃ r ∈ s.ratingsOf user, r.item = item := by
  rw [itemsOf, ItemSet.mem_toList_ofList, List.mem_map]

/-- The first rated item outside a universe is the first that is no member. -/
theorem stray?_eq (s : Snapshot) (items : ItemSet) :
    s.stray? items = s.rated.find? fun p => p.2 ∉ items.toList := by
  have hpred : (fun p : UserId × ItemId => !items.contains p.2) =
      fun p => decide (p.2 ∉ items.toList) := by
    funext p
    rw [Bool.eq_iff_iff, Bool.not_eq_true', Bool.eq_false_iff, ne_eq, ItemSet.contains_iff,
      decide_eq_true_iff]
  rw [stray?, hpred]

/-- A user has a last value for exactly the items he rated. -/
theorem isSome_lastValue {s : Snapshot} {user : UserId} {item : ItemId} :
    (s.lastValue user item).isSome = true ↔ item ∈ (s.itemsOf user).toList := by
  rw [lastValue, Option.isSome_map, List.findRev?_eq_find?_reverse, List.find?_isSome, mem_itemsOf]
  constructor
  · rintro ⟨r, hr, hitem⟩
    exact ⟨r, List.mem_reverse.mp hr, by simpa using hitem⟩
  · rintro ⟨r, hr, rfl⟩
    exact ⟨r, List.mem_reverse.mpr hr, by simp⟩

end Snapshot

namespace TransposedRatings

variable {s : Snapshot} {items : ItemSet} {collect : Bool} {user : UserId} {item : ItemId}

/-! ## The ratings of one user -/

/-- The accumulator of `item` after the ratings of a user. -/
def record (user : UserId) (item : ItemId) (ratings : List Rating) (acc : RatingAccumulator) :
    RatingAccumulator :=
  ratings.foldl (fun acc r => if r.item = item then acc.insert user r.value else acc) acc

/-- The ratings of a user change his own value, and the last one counts. -/
theorem getElem?_record (ratings : List Rating) (acc : RatingAccumulator) (u : UserId) :
    (record user item ratings acc)[u]? =
      if u = user then ((ratings.findRev? (·.item == item)).map (·.value)).or acc[u]?
      else acc[u]? := by
  induction ratings using List.reverseRecOn with
  | nil => simp [record]
  | append_singleton ratings r ih =>
    have hstep : record user item (ratings ++ [r]) acc =
        if r.item = item then (record user item ratings acc).insert user r.value
        else record user item ratings acc := by
      simp [record]
    rw [hstep, findRev?_concat]
    by_cases hitem : r.item = item
    · rw [if_pos hitem, Std.HashMap.getElem?_insert, ih]
      by_cases hu : u = user
      · simp [hu, hitem]
      · simp [hu, Ne.symm hu]
    · rw [if_neg hitem, ih]
      simp [hitem]

theorem addRating_eq_ok {map : Std.HashMap ItemId RatingAccumulator} {r : Rating}
    (h : map.contains r.item = true) :
    addRating user map r = .ok (map.modify r.item (·.insert user r.value)) := by
  rw [addRating, if_pos h]

theorem addRating_eq_error {map : Std.HashMap ItemId RatingAccumulator} {r : Rating}
    (h : ¬ map.contains r.item = true) :
    addRating user map r = .error (.unknownRatedItem user r.item) := by
  rw [addRating, if_neg h]

/-- Ratings of known items are all filed, each under its item. -/
theorem exists_foldlM_addRating_eq_ok (user : UserId) {ratings : List Rating}
    {map : Std.HashMap ItemId RatingAccumulator}
    (h : ∀ r ∈ ratings, map.contains r.item = true) :
    ∃ map', ratings.foldlM (addRating user) map = .ok map' ∧
      ∀ item, map'[item]? = map[item]?.map (record user item ratings) := by
  induction ratings generalizing map with
  | nil => exact ⟨map, rfl, fun item => (congrFun Option.map_id map[item]?).symm⟩
  | cons r ratings ih =>
    have hr : map.contains r.item = true := h r (by simp)
    -- filing a rating adds no item, so the others are still known
    have hrest : ∀ r' ∈ ratings,
        (map.modify r.item (·.insert user r.value)).contains r'.item = true := by
      intro r' hr'
      rw [Std.HashMap.contains_modify]
      exact h r' (by simp [hr'])
    obtain ⟨map', hok, hlook⟩ := ih hrest
    refine ⟨map', ?_, ?_⟩
    · rw [List.foldlM_cons, addRating_eq_ok hr]
      exact hok
    · intro item
      rw [hlook, Std.HashMap.getElem?_modify]
      by_cases hitem : r.item = item
      · subst hitem
        simp only [beq_self_eq_true, if_true, Option.map_map]
        congr 1
        funext acc
        simp [record]
      · have hskip : record user item (r :: ratings) = record user item ratings := by
          funext acc
          simp [record, hitem]
        simp [hitem, hskip]

/-- The first rating of an unknown item ends the turn of a user. -/
theorem foldlM_addRating_eq_error {ratings : List Rating}
    {map : Std.HashMap ItemId RatingAccumulator} {r : Rating}
    (h : ratings.find? (fun r => !map.contains r.item) = some r) :
    ratings.foldlM (addRating user) map = .error (.unknownRatedItem user r.item) := by
  induction ratings generalizing map with
  | nil => simp at h
  | cons r' ratings ih =>
    rw [List.foldlM_cons]
    by_cases hr' : map.contains r'.item = true
    · have hrest : ratings.find? (fun r =>
          !(map.modify r'.item (·.insert user r'.value)).contains r.item) = some r := by
        rw [List.find?_cons_of_neg (by simp [hr'])] at h
        simpa only [Std.HashMap.contains_modify] using h
      rw [addRating_eq_ok hr']
      exact ih hrest
    · have heq : r' = r := by
        rw [List.find?_cons_of_pos (by simp [hr'])] at h
        exact Option.some.inj h
      rw [addRating_eq_error hr', heq]
      rfl

/-! ## All users -/

/-- What has been collected from some users. -/
structure Collected (s : Snapshot) (items : ItemSet) (collect : Bool) (users : List UserId)
    (t : TransposedRatings) : Prop where
  contains : ∀ item, t.itemRatings.contains item = items.contains item
  value : ∀ item acc, t.itemRatings[item]? = some acc →
    ∀ user, acc[user]? = if user ∈ users then s.lastValue user item else none
  collected : t.userItems.isSome = collect
  itemsOf : ∀ sets, t.userItems = some sets →
    ∀ user, sets[user]? = if user ∈ users then some (s.itemsOf user) else none

/-- Inserting empty accumulators makes them all empty. -/
theorem getElem?_foldl_insert_empty (l : List ItemId)
    (map : Std.HashMap ItemId RatingAccumulator) :
    (l.foldl (fun map item => map.insert item ∅) map)[item]? =
      if item ∈ l then some ∅ else map[item]? := by
  induction l using List.reverseRecOn with
  | nil => rfl
  | append_singleton l i ih =>
    rw [List.foldl_append, List.foldl_cons, List.foldl_nil, Std.HashMap.getElem?_insert, ih]
    by_cases hi : i = item
    · simp [hi]
    · simp [hi, Ne.symm hi]

theorem collected_start : Collected s items collect [] (start items collect) where
  contains := by
    intro item
    rw [Std.HashMap.contains_eq_isSome_getElem?, start, getElem?_foldl_insert_empty,
      Bool.eq_iff_iff, ItemSet.contains_iff]
    by_cases hitem : item ∈ items.toList <;> simp [hitem]
  value := by
    intro item acc hacc user
    rw [start, getElem?_foldl_insert_empty] at hacc
    by_cases hitem : item ∈ items.toList
    · rw [if_pos hitem] at hacc
      obtain rfl : ∅ = acc := Option.some.inj hacc
      simp
    · rw [if_neg hitem] at hacc
      simp at hacc
  collected := by
    cases collect <;> rfl
  itemsOf := by
    intro sets hsets user
    cases collect with
    | false => cases hsets
    | true =>
      obtain rfl : ∅ = sets := Option.some.inj hsets
      simp

/-- The turn of a user who rated members of the universe only. -/
theorem Collected.exists_addUser_eq_ok {users : List UserId} {t : TransposedRatings}
    (h : Collected s items collect users t)
    (hknown : ∀ r ∈ s.ratingsOf user, items.contains r.item = true) :
    ∃ t', addUser s t user = .ok t' ∧ Collected s items collect (users ++ [user]) t' := by
  obtain ⟨map, hok, hlook⟩ := exists_foldlM_addRating_eq_ok user
    fun r hr => (h.contains r.item).trans (hknown r hr)
  refine ⟨⟨map, t.userItems.map (·.insert user (s.itemsOf user))⟩, ?_, ?_, ?_, ?_, ?_⟩
  · show (List.foldlM (addRating user) t.itemRatings (s.ratingsOf user) >>= _) = _
    rw [hok]
    rfl
  · intro item
    rw [← h.contains item, Std.HashMap.contains_eq_isSome_getElem?, hlook, Option.isSome_map,
      Std.HashMap.contains_eq_isSome_getElem?]
  · intro item acc hacc u
    rw [hlook] at hacc
    obtain ⟨before, hbefore, rfl⟩ := Option.map_eq_some_iff.mp hacc
    rw [getElem?_record, h.value item before hbefore]
    by_cases hu : u = user
    · -- a user who is listed again gives the same values again
      subst hu
      have hlisted : u ∈ users ++ [u] := List.mem_append_right users (List.mem_singleton_self u)
      rw [if_pos rfl, if_pos hlisted]
      show (s.lastValue u item).or _ = s.lastValue u item
      cases hlast : s.lastValue u item with
      | none => simp
      | some value => rfl
    · simp [hu]
  · rw [Option.isSome_map, h.collected]
  · intro sets hsets u
    obtain ⟨before, hbefore, rfl⟩ := Option.map_eq_some_iff.mp hsets
    rw [Std.HashMap.getElem?_insert, h.itemsOf before hbefore]
    by_cases hu : user = u
    · simp [hu]
    · simp [hu, Ne.symm hu]

/-- The first rating of an item outside the universe ends the turn of its user. -/
theorem Collected.addUser_eq_error {users : List UserId} {t : TransposedRatings}
    (h : Collected s items collect users t) {r : Rating}
    (hr : (s.ratingsOf user).find? (fun r => !items.contains r.item) = some r) :
    addUser s t user = .error (.unknownRatedItem user r.item) := by
  have herror : (s.ratingsOf user).foldlM (addRating user) t.itemRatings =
      .error (.unknownRatedItem user r.item) :=
    foldlM_addRating_eq_error (by simpa only [h.contains] using hr)
  show (List.foldlM (addRating user) t.itemRatings (s.ratingsOf user) >>= _) = _
  rw [herror]
  rfl

/-- The turns of users who rated members of the universe only. -/
theorem Collected.exists_foldlM_addUser_eq_ok {users rest : List UserId} {t : TransposedRatings}
    (h : Collected s items collect users t)
    (hknown : ∀ user ∈ rest, ∀ r ∈ s.ratingsOf user, items.contains r.item = true) :
    ∃ t', rest.foldlM (addUser s) t = .ok t' ∧
      Collected s items collect (users ++ rest) t' := by
  induction rest generalizing users t with
  | nil => exact ⟨t, rfl, by rwa [List.append_nil]⟩
  | cons user rest ih =>
    obtain ⟨t', hok, h'⟩ := h.exists_addUser_eq_ok (hknown user (by simp))
    obtain ⟨t'', hrest, h''⟩ := ih h' fun u hu => hknown u (by simp [hu])
    refine ⟨t'', ?_, by rwa [List.append_assoc, List.singleton_append] at h''⟩
    rw [List.foldlM_cons, hok]
    exact hrest

/-- The first rating of an item outside the universe ends the transposition. -/
theorem Collected.foldlM_addUser_eq_error {users rest : List UserId} {t : TransposedRatings}
    (h : Collected s items collect users t) {stray : UserId × ItemId}
    (hstray : (rest.flatMap fun user => (s.ratingsOf user).map fun r => (user, r.item)).find?
      (fun p => !items.contains p.2) = some stray) :
    rest.foldlM (addUser s) t = .error (.unknownRatedItem stray.1 stray.2) := by
  induction rest generalizing users t with
  | nil => simp at hstray
  | cons user rest ih =>
    rw [List.flatMap_cons, List.find?_append, List.find?_map] at hstray
    rw [List.foldlM_cons]
    -- the search goes through the ratings of this user first
    cases hfind : (s.ratingsOf user).find? (fun r => !items.contains r.item) with
    | none =>
      have hknown : ∀ r ∈ s.ratingsOf user, items.contains r.item = true := by
        simpa using hfind
      obtain ⟨t', hok, h'⟩ := h.exists_addUser_eq_ok hknown
      have hnone : (s.ratingsOf user).find?
          ((fun p : UserId × ItemId => !items.contains p.2) ∘ fun r => (user, r.item)) = none :=
        hfind
      rw [hnone] at hstray
      rw [hok]
      exact ih h' hstray
    | some r =>
      have hsome : (s.ratingsOf user).find?
          ((fun p : UserId × ItemId => !items.contains p.2) ∘ fun r => (user, r.item)) = some r :=
        hfind
      rw [hsome] at hstray
      obtain rfl : (user, r.item) = stray := by simpa using hstray
      rw [h.addUser_eq_error hfind]
      rfl

end TransposedRatings

namespace Snapshot

variable {s : Snapshot} {items : ItemSet} {collect : Bool}

/-- A snapshot without stray ratings has none at any listed user. -/
theorem stray?_eq_none_iff :
    s.stray? items = none ↔
      ∀ user ∈ s.userIds, ∀ r ∈ s.ratingsOf user, items.contains r.item = true := by
  simp [stray?, rated]

/-- The first stray rating is the error of the transposition. -/
theorem transpose_eq_error {stray : UserId × ItemId} (h : s.stray? items = some stray) :
    s.transpose items collect = .error (.unknownRatedItem stray.1 stray.2) :=
  TransposedRatings.collected_start.foldlM_addUser_eq_error h

/-- Without a stray rating a transposition collects everything. -/
theorem exists_transpose_eq_ok (h : s.stray? items = none) (collect : Bool) :
    ∃ t, s.transpose items collect = .ok t ∧
      TransposedRatings.Collected s items collect s.userIds t :=
  TransposedRatings.collected_start.exists_foldlM_addUser_eq_ok (stray?_eq_none_iff.mp h)

/-- Whatever a transposition returns is collected completely. -/
theorem collected_of_transpose {t : TransposedRatings} (h : s.transpose items collect = .ok t) :
    TransposedRatings.Collected s items collect s.userIds t := by
  cases hstray : s.stray? items with
  | none =>
    obtain ⟨t', hok, hcollected⟩ := exists_transpose_eq_ok hstray collect
    obtain rfl : t' = t := Except.ok.inj (hok.symm.trans h)
    exact hcollected
  | some stray =>
    rw [transpose_eq_error hstray] at h
    cases h

end Snapshot

namespace TransposedRatings

variable {s : Snapshot} {items : ItemSet} {collect : Bool} {t : TransposedRatings}

/-! ## Exactness -/

/-- The accumulators and the sets hold what the listed users rated and nothing else. -/
structure Exact (s : Snapshot) (items : ItemSet) (collect : Bool) (t : TransposedRatings) :
    Prop where
  /-- There is one accumulator for each member of the universe. -/
  keys : t.itemRatings.keys.Perm items.toList
  mem : ∀ item acc, t.itemRatings[item]? = some acc → ∀ user,
    user ∈ acc ↔ user ∈ s.userIds ∧ ∃ r ∈ s.ratingsOf user, r.item = item
  /-- The last rating that a user has for an item counts. -/
  value : ∀ item acc, t.itemRatings[item]? = some acc → ∀ user ∈ s.userIds,
    acc[user]? = s.lastValue user item
  isSome_userItems : t.userItems.isSome = collect
  users : ∀ sets, t.userItems = some sets → ∀ user, user ∈ sets ↔ user ∈ s.userIds
  set : ∀ sets, t.userItems = some sets → ∀ user (set : ItemSet), sets[user]? = some set →
    set.toList.Pairwise (· < ·) ∧
      ∀ item, item ∈ set.toList ↔ ∃ r ∈ s.ratingsOf user, r.item = item
  /-- A user is in the accumulator of an item exactly if the item is in his set. -/
  dual : ∀ sets, t.userItems = some sets → ∀ user item,
    (∃ set : ItemSet, sets[user]? = some set ∧ item ∈ set.toList) ↔
      ∃ acc, t.itemRatings[item]? = some acc ∧ user ∈ acc

namespace Collected

variable (h : Collected s items collect s.userIds t)
include h

theorem mem_itemRatings_iff {item : ItemId} : item ∈ t.itemRatings ↔ item ∈ items.toList := by
  rw [← Std.HashMap.contains_iff_mem, h.contains, ItemSet.contains_iff]

/-- Who is in an accumulator. -/
theorem mem_acc_iff {item : ItemId} {acc : RatingAccumulator}
    (hacc : t.itemRatings[item]? = some acc) {user : UserId} :
    user ∈ acc ↔ user ∈ s.userIds ∧ ∃ r ∈ s.ratingsOf user, r.item = item := by
  rw [Std.HashMap.mem_iff_isSome_getElem?, h.value item acc hacc]
  by_cases huser : user ∈ s.userIds
  · rw [if_pos huser, Snapshot.isSome_lastValue, Snapshot.mem_itemsOf]
    simp [huser]
  · simp [huser]

/-- Which sets there are. -/
theorem getElem?_sets_eq_some_iff {sets : Std.HashMap UserId ItemSet}
    (hsets : t.userItems = some sets) {user : UserId} {set : ItemSet} :
    sets[user]? = some set ↔ user ∈ s.userIds ∧ s.itemsOf user = set := by
  rw [h.itemsOf sets hsets]
  by_cases huser : user ∈ s.userIds <;> simp [huser]

/-- What was collected from all listed users is exact, if they rated members only. -/
theorem exact (hknown : s.stray? items = none) : t.Exact s items collect where
  keys := by
    refine (List.perm_ext_iff_of_nodup Std.HashMap.nodup_keys (ItemSet.nodup_toList _)).mpr ?_
    intro item
    rw [Std.HashMap.mem_keys, h.mem_itemRatings_iff]
  mem := fun item acc hacc user => h.mem_acc_iff hacc
  value := fun item acc hacc user huser => by rw [h.value item acc hacc, if_pos huser]
  isSome_userItems := h.collected
  users := by
    intro sets hsets user
    rw [Std.HashMap.mem_iff_isSome_getElem?, Option.isSome_iff_exists]
    simp [h.getElem?_sets_eq_some_iff hsets]
  set := by
    intro sets hsets user set hset
    obtain ⟨-, rfl⟩ := (h.getElem?_sets_eq_some_iff hsets).mp hset
    exact ⟨ItemSet.toList_pairwise _, fun item => Snapshot.mem_itemsOf⟩
  dual := by
    intro sets hsets user item
    constructor
    · rintro ⟨set, hset, hitem⟩
      obtain ⟨huser, rfl⟩ := (h.getElem?_sets_eq_some_iff hsets).mp hset
      obtain ⟨r, hr, rfl⟩ := Snapshot.mem_itemsOf.mp hitem
      -- what a listed user rated is a member of the universe, so it has an accumulator
      have hmember : r.item ∈ t.itemRatings := h.mem_itemRatings_iff.mpr
        (ItemSet.contains_iff.mp (Snapshot.stray?_eq_none_iff.mp hknown user huser r hr))
      have hacc := Std.HashMap.getElem?_eq_some_getElem hmember
      exact ⟨_, hacc, (h.mem_acc_iff hacc).mpr ⟨huser, r, hr, rfl⟩⟩
    · rintro ⟨acc, hacc, huser⟩
      obtain ⟨hlisted, hrated⟩ := (h.mem_acc_iff hacc).mp huser
      exact ⟨_, (h.getElem?_sets_eq_some_iff hsets).mpr ⟨hlisted, rfl⟩,
        Snapshot.mem_itemsOf.mpr hrated⟩

end Collected

/-- The sets are filled beside the accumulators and do not act on them. -/
theorem map_itemRatings_foldlM_addUser (s : Snapshot) (users : List UserId)
    (t : TransposedRatings) :
    (users.foldlM (addUser s) t).map (·.itemRatings) =
      users.foldlM (fun map user => (s.ratingsOf user).foldlM (addRating user) map)
        t.itemRatings := by
  induction users generalizing t with
  | nil => rfl
  | cons user users ih =>
    rw [List.foldlM_cons, List.foldlM_cons]
    show Except.map _ ((List.foldlM (addRating user) t.itemRatings (s.ratingsOf user) >>= _) >>= _)
      = _
    cases List.foldlM (addRating user) t.itemRatings (s.ratingsOf user) with
    | error e => rfl
    | ok map => exact ih _

end TransposedRatings

namespace Snapshot

/-- **A transposition is exact, or it stops at the first rating of an item outside the universe**,
in the order of the users and of their ratings. Whether sets are asked for changes neither the
error nor the accumulators. -/
theorem transpose_exact (s : Snapshot) (items : ItemSet) (collect : Bool) :
    (match s.rated.find? fun p => p.2 ∉ items.toList with
      | some (user, item) => s.transpose items collect = .error (.unknownRatedItem user item)
      | none => ∃ t, s.transpose items collect = .ok t ∧ t.Exact s items collect) ∧
    (s.transpose items true).map (·.itemRatings) =
      (s.transpose items false).map (·.itemRatings) := by
  constructor
  · rw [← stray?_eq]
    cases hstray : s.stray? items with
    | some stray => exact transpose_eq_error hstray
    | none =>
      obtain ⟨t, hok, hcollected⟩ := exists_transpose_eq_ok hstray collect
      exact ⟨t, hok, hcollected.exact hstray⟩
  · -- either way the accumulators are those of the same loop
    rw [transpose, transpose, TransposedRatings.map_itemRatings_foldlM_addUser,
      TransposedRatings.map_itemRatings_foldlM_addUser]
    rfl

end Snapshot

end ItemNeighbors
