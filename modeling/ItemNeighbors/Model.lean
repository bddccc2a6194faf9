import ItemNeighbors.Baseline
import ItemNeighbors.Normalizer
import ItemNeighbors.SimilarityMatrix

/-!
# Models

- `Model`: the result of a build, with all that a recommender needs.
-/

namespace ItemNeighbors

/-- The neighbors of every item, together with what turns scores back into ratings. -/
structure Model where
  matrix : SimilarityMatrix
  normalizer : Normalizer
  baseline : Option Baseline
  items : ItemSet

/-- The neighbors of an item, best first; nothing for an item outside the universe. -/
def Model.neighbors? (m : Model) (item : ItemId) : Option (List Neighbor) :=
  m.matrix.neighbors? item

end ItemNeighbors
