/-!
# Ratings

Users and items are named by 64 bit numbers; a rating is the value that one user gave to one item.

- `Rating`: a user, an item and a value.
-/

namespace ItemNeighbors

/-- The number that names an item. -/
abbrev ItemId := UInt64

/-- The number that names a user. -/
abbrev UserId := UInt64

/-- The value that a user gave to an item. -/
structure Rating where
  user : UserId
  item : ItemId
  value : Float
deriving DecidableEq

end ItemNeighbors
