import ItemNeighbors.Rating

/-!
# What can go wrong while a model is built

- `BuildError`: the causes.
- `BuildError.message`: the wording of each cause.
-/

namespace ItemNeighbors

/-- The ways in which configuring or running a model build is refused. -/
inductive BuildError where
  /-- Data of a build was asked for where there is none. -/
  | invalidState (subject : String)
  /-- A part that every build needs was never given. -/
  | missingConfiguration (part : String)
  /-- A listed user rated an item that the snapshot does not declare. -/
  | unknownRatedItem (user : UserId) (item : ItemId)
  /-- An item has no place in the universe that is being scored. -/
  | itemOutsideUniverse (item : ItemId)
  /-- The builder has produced its one model before. -/
  | alreadyBuilt
deriving DecidableEq

namespace BuildError

/-- The text that tells a person about the error; it names the ids at fault. -/
def message : BuildError → String
  | invalidState subject => "Not in build phase: " ++ subject
  | missingConfiguration part => "Missing configuration: " ++ part
  | unknownRatedItem user item =>
    "User " ++ toString user ++ " rated item " ++ toString item
      ++ ", which is not part of the item universe"
  | itemOutsideUniverse item =>
    "Item " ++ toString item ++ " is outside the item universe of the similarity matrix"
  | alreadyBuilt => "Builder has already produced a model"

/-- Raised by the sets of items per user where a build did not collect them. -/
def setsNotCollected : BuildError := invalidState "user item sets were not collected"

end BuildError

end ItemNeighbors
