import ItemNeighbors.BuildError
import ItemNeighbors.ItemSet
import ItemNeighbors.Snapshot
import ItemNeighbors.SparseVector.Accumulator

/-!
# Transposition

Ratings come user by user, a build needs them item by item.

- `TransposedRatings`: one accumulator per item of the universe and, on request, the set of items
  of each listed user.
- `Snapshot.transpose`: one pass over the ratings of the listed users; it stops at the first rating
  of an item outside the universe.
-/

namespace ItemNeighbors

/-- Ratings by item, still open for change. -/
structure TransposedRatings where
  itemRatings : Std.HashMap ItemId RatingAccumulator
  /-- The items of each listed user, if they were asked for. -/
  userItems : Option (Std.HashMap UserId ItemSet)

namespace TransposedRatings

/-- One empty accumulator per item, so that items without ratings are present, too. -/
def start (items : ItemSet) (collect : Bool) : TransposedRatings where
  itemRatings := items.toList.foldl (fun map item => map.insert item ∅) ∅
  userItems := if collect then some ∅ else none

/-- Files one rating under its item. A later rating of the same user for the item replaces an
earlier one. -/
def addRating (user : UserId) (itemRatings : Std.HashMap ItemId RatingAccumulator) (r : Rating) :
    Except BuildError (Std.HashMap ItemId RatingAccumulator) :=
  if itemRatings.contains r.item then
    .ok (itemRatings.modify r.item (·.insert user r.value))
  else .error (.unknownRatedItem user r.item)

/-- Files the ratings of one user. -/
def addUser (s : Snapshot) (t : TransposedRatings) (user : UserId) :
    Except BuildError TransposedRatings := do
  let ratings := s.ratingsOf user
  let itemRatings ← ratings.foldlM (addRating user) t.itemRatings
  let userItems := t.userItems.map (·.insert user (ItemSet.ofList (ratings.map (·.item))))
  return { itemRatings, userItems }

end TransposedRatings

/-- The ratings of the listed users, by item. -/
def Snapshot.transpose (s : Snapshot) (items : ItemSet) (collect : Bool) :
    Except BuildError TransposedRatings :=
  s.userIds.foldlM (TransposedRatings.addUser s) (TransposedRatings.start items collect)

end ItemNeighbors
