import ItemNeighbors.SparseVector.Join

/-!
# Similarities

A similarity scores two item vectors. It makes two promises, on which the choice of a build
strategy rests: a *sparse* similarity is zero for vectors without a common key, and a *symmetric*
one does not depend on the order of its arguments. Nothing here checks a promise.

- `Similarity`: a scoring function, which may depend on how often it was called before and may
  fail, with its promises.
- `Similarity.ofFunction`: a pure scoring function.
- `Similarity.cosine`, `Similarity.pearson`: the two similarities of the command line.
-/

namespace ItemNeighbors

/-- A way to score two vectors, and what it promises. The first argument of `score` is the number
of calls made before; a call without an answer has failed. -/
structure Similarity where
  score : Nat → SparseVector → SparseVector → Option Float
  isSparse : Bool
  isSymmetric : Bool

namespace Similarity

/-- The similarity that answers every call by the same function. -/
def ofFunction (f : SparseVector → SparseVector → Float) (isSparse isSymmetric : Bool) :
    Similarity where
  score _ a b := some (f a b)
  isSparse := isSparse
  isSymmetric := isSymmetric

/-- The cosine of the angle between two vectors, with a constant added to the denominator.
Vectors with inner product zero score zero, whatever the denominator. -/
def cosineScore (damping : Float) (a b : SparseVector) : Float :=
  let dot := a.dot b
  if dot == 0.0 then 0.0
  else
    let denominator := a.norm * b.norm + damping
    if denominator == 0.0 then 0.0 else dot / denominator

/-- The damped cosine. Vectors without a common key have inner product zero, so it is sparse. -/
def cosine (damping : Float) : Similarity :=
  ofFunction (cosineScore damping) true true

/-- Sums of products of deviations from the means. -/
structure Moments where
  covariance : Float
  varianceA : Float
  varianceB : Float

/-- The moments of some pairs around given means, added up from left to right. -/
def Moments.around (meanA meanB : Float) (pairs : List (Float × Float)) : Moments :=
  pairs.foldl (fun m pair =>
    let deviationA := pair.1 - meanA
    let deviationB := pair.2 - meanB
    { covariance := m.covariance + deviationA * deviationB
      varianceA := m.varianceA + deviationA * deviationA
      varianceB := m.varianceB + deviationB * deviationB })
    { covariance := 0.0, varianceA := 0.0, varianceB := 0.0 }

/-- The correlation of two vectors over the keys they share, with a constant added to the
denominator. Fewer than two common keys score zero. -/
def pearsonScore (shrinkage : Float) (a b : SparseVector) : Float :=
  let common := a.coEntries b
  if common.length < 2 then 0.0
  else
    let n := common.length.toFloat
    let meanA := SparseVector.total (common.map (·.1)) / n
    let meanB := SparseVector.total (common.map (·.2)) / n
    let m := Moments.around meanA meanB common
    let denominator := (m.varianceA * m.varianceB).sqrt + shrinkage
    if denominator == 0.0 then 0.0 else m.covariance / denominator

/-- The shrunk correlation. It makes no promise of being sparse, so every pair gets scored. -/
def pearson (shrinkage : Float) : Similarity :=
  ofFunction (pearsonScore shrinkage) false true

end Similarity

end ItemNeighbors
