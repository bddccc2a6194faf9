import Std.Data.HashMap
import Std.Data.HashSet
import ItemNeighbors.Normalizer
import ItemNeighbors.Snapshot

/-!
# Packed snapshots

A packed snapshot keeps the ratings of each user together. Users and items are listed in the order
of their first occurrence; a repeated rating is kept.

- `PackedSnapshot.ofRatings`: packs a list of ratings.
- `PackedSnapshot.userVector`: the ratings of a user as a vector, where the latest rating counts.
- `PackedSnapshot.normalized`: the snapshot with every user's vector normalized by itself.
- `PackedSnapshot.toSnapshot`: the view that a build gets.
-/

namespace ItemNeighbors

/-- Ratings in memory, grouped by user. -/
structure PackedSnapshot where
  /-- The users, in the order of their first rating. -/
  userIds : Array UserId
  /-- The items, in the order of their first rating. -/
  itemIds : Array ItemId
  /-- The members of `itemIds`, for quick look-up. -/
  knownItems : Std.HashSet ItemId
  /-- The ratings of each user, in order. -/
  ratingsByUser : Std.HashMap UserId (Array Rating)
  /-- How many ratings were packed, repeated ones included. -/
  numRatings : Nat

namespace PackedSnapshot

/-- The snapshot without ratings. -/
def empty : PackedSnapshot where
  userIds := #[]
  itemIds := #[]
  knownItems := ∅
  ratingsByUser := ∅
  numRatings := 0

/-- Packs one more rating. -/
def add (s : PackedSnapshot) (r : Rating) : PackedSnapshot where
  userIds := if s.ratingsByUser.contains r.user then s.userIds else s.userIds.push r.user
  itemIds := if s.knownItems.contains r.item then s.itemIds else s.itemIds.push r.item
  knownItems := s.knownItems.insert r.item
  ratingsByUser := s.ratingsByUser.alter r.user fun ratings => some ((ratings.getD #[]).push r)
  numRatings := s.numRatings + 1

/-- Packs ratings in the given order. -/
def ofRatings (ratings : List Rating) : PackedSnapshot :=
  ratings.foldl add empty

/-- The ratings of a user in the order in which they were packed; none for an unknown user. -/
def ratingsOf (s : PackedSnapshot) (user : UserId) : List Rating :=
  (s.ratingsByUser.getD user #[]).toList

/-- The ratings of a user as a vector over items, where the latest rating of an item counts. -/
def userVector (s : PackedSnapshot) (user : UserId) : SparseVector :=
  SparseVector.ofPairs ((s.ratingsOf user).map fun r => (r.item, r.value))

/-- The entries of a user's vector, normalized by that vector, as ratings. -/
def normalizedRatingsOf (s : PackedSnapshot) (n : Normalizer) (user : UserId) : List Rating :=
  let vector := s.userVector user
  (n.normalize vector vector).toList.map fun entry => ⟨user, entry.1, entry.2⟩

/-- The normalized ratings of all users, packed again. -/
def normalized (s : PackedSnapshot) (n : Normalizer) : PackedSnapshot :=
  ofRatings (s.userIds.toList.flatMap (s.normalizedRatingsOf n))

/-- What a build gets to see. -/
def toSnapshot (s : PackedSnapshot) : Snapshot where
  userIds := s.userIds.toList
  itemIds := s.itemIds.toList
  ratingsOf := s.ratingsOf

end PackedSnapshot

end ItemNeighbors
