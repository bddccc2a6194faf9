import ItemNeighbors.Transposition

/-!
# Build contexts

The frozen data of a build, which its strategy may read and nothing may change.

- `BuildContext.freeze`: freezes transposed ratings for a universe.
- `BuildContext.itemVector?`, `BuildContext.userItemSet`: the look-ups.
-/

namespace ItemNeighbors

/-- What a strategy reads. Nothing makes the parts agree. -/
structure BuildContext where
  items : ItemSet
  itemVectors : Std.HashMap ItemId SparseVector
  /-- The items of each user, if they were collected. -/
  userItems : Option (Std.HashMap UserId ItemSet)

namespace BuildContext

/-- Freezes every accumulator into its vector. -/
def freeze (items : ItemSet) (t : TransposedRatings) : BuildContext where
  items := items
  itemVectors := t.itemRatings.map fun _ ratings => ratings.freeze
  userItems := t.userItems

/-- How many items the universe has. -/
def itemCount (c : BuildContext) : Nat := c.items.size

/-- The ratings of an item. -/
def itemVector? (c : BuildContext) (item : ItemId) : Option SparseVector :=
  c.itemVectors[item]?

/-- The ratings of an item that a strategy cannot do without. -/
def itemVector (c : BuildContext) (item : ItemId) : Except BuildError SparseVector :=
  match c.itemVector? item with
  | some vector => .ok vector
  | none => .error (.itemOutsideUniverse item)

/-- Whether the items of each user were collected. -/
def hasUserItemSets (c : BuildContext) : Bool := c.userItems.isSome

/-- The items of a user, nothing for an unknown user. It is an error to ask where no sets were
collected. -/
def userItemSet (c : BuildContext) (user : UserId) : Except BuildError (Option ItemSet) :=
  match c.userItems with
  | some sets => .ok sets[user]?
  | none => .error .setsNotCollected

end BuildContext

end ItemNeighbors
