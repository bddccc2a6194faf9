import Std.Data.HashMap
import ItemNeighbors.Snapshot
import ItemNeighbors.SparseVector

/-!
# Baselines

A baseline predicts ratings where no neighbors help.

- `ItemMeans.train`: the mean rating of each item, drawn towards the mean of all ratings.
- `Baseline.predict`: the prediction for a user and an item.
-/

namespace ItemNeighbors

/-- A sum of values, added from left to right, and their number. -/
structure Tally where
  sum : Float
  count : Nat

namespace Tally

/-- The tally of no value. -/
def zero : Tally := ⟨0.0, 0⟩

/-- Takes one more value in. -/
def add (t : Tally) (value : Float) : Tally := ⟨t.sum + value, t.count + 1⟩

end Tally

/-- The mean of all ratings and a damped mean for each rated item. -/
structure ItemMeans where
  globalMean : Float
  means : Std.HashMap ItemId Float

namespace ItemMeans

/-- Tallies of all ratings and of the ratings of each item. -/
structure Tallies where
  overall : Tally
  byItem : Std.HashMap ItemId Tally

/-- Takes one more rating in. -/
def Tallies.add (t : Tallies) (r : Rating) : Tallies where
  overall := t.overall.add r.value
  byItem := t.byItem.insert r.item ((t.byItem.getD r.item Tally.zero).add r.value)

/-- Tallies of ratings, taken in order. -/
def Tallies.ofRatings (ratings : List Rating) : Tallies :=
  ratings.foldl Tallies.add ⟨Tally.zero, ∅⟩

/-- The mean of everything tallied, zero if that is nothing. -/
def meanOf (t : Tally) : Float :=
  if t.count = 0 then 0.0 else t.sum / t.count.toFloat

/-- A mean that counts `damping` more ratings, each of the global mean. -/
def dampedMean (damping globalMean : Float) (t : Tally) : Float :=
  (t.sum + damping * globalMean) / (t.count.toFloat + damping)

/-- Means of the ratings of the listed users, in one pass. -/
def train (s : Snapshot) (damping : Float) : ItemMeans :=
  let tallies := Tallies.ofRatings s.ratings
  let globalMean := meanOf tallies.overall
  { globalMean, means := tallies.byItem.map fun _ t => dampedMean damping globalMean t }

/-- The mean of an item, and the global mean for an item without ratings. -/
def predict (m : ItemMeans) (item : ItemId) : Float :=
  m.means.getD item m.globalMean

end ItemMeans

/-- The predictors that a model can carry. -/
inductive Baseline where
  /-- The same value for all. -/
  | constant (value : Float)
  /-- The mean of the item. -/
  | itemMeans (means : ItemMeans)

/-- The rating that a user with these ratings is predicted to give to an item. -/
def Baseline.predict (b : Baseline) (_user : UserId) (_ratings : SparseVector) (item : ItemId) :
    Float :=
  match b with
  | constant value => value
  | itemMeans means => means.predict item

end ItemNeighbors
