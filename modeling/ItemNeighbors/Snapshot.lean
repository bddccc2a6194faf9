import ItemNeighbors.Rating

/-!
# Snapshots

- `Snapshot`: what a model build and a baseline get to see of a collection of ratings.
- `Snapshot.ratings`: the ratings of all listed users.
-/

namespace ItemNeighbors

/-- A read-only view of ratings. Nothing makes the parts agree: users and items may be listed more
than once, and a user may have rated an item that is not listed. -/
structure Snapshot where
  /-- The users, in the order in which their ratings are taken. -/
  userIds : List UserId
  /-- The items that are declared to exist, in any order. -/
  itemIds : List ItemId
  /-- The ratings of a user, in order; none for a user without ratings. -/
  ratingsOf : UserId → List Rating

/-- The ratings of the listed users, user by user. -/
def Snapshot.ratings (s : Snapshot) : List Rating :=
  s.userIds.flatMap s.ratingsOf

end ItemNeighbors
