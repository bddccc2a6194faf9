import ItemNeighbors.SparseVector

/-!
# Normalizers

A normalizer changes the values of a vector relative to a reference vector, usually the ratings
of the same user, and can undo the change.

- `Normalizer.normalize`, `Normalizer.denormalize`: the change and its reversal. Neither touches
  the keys.
-/

namespace ItemNeighbors

/-- The ways to take a user's habits out of a rating vector. -/
inductive Normalizer where
  /-- Leaves every value alone. -/
  | identity
  /-- Subtracts the mean of the reference vector. -/
  | meanCentering
deriving DecidableEq

namespace Normalizer

/-- The target relative to the reference. -/
def normalize (n : Normalizer) (reference target : SparseVector) : SparseVector :=
  match n with
  | identity => target
  | meanCentering => target.mapValues (· + -reference.mean)

/-- Takes a target that is relative to the reference back to its own scale. -/
def denormalize (n : Normalizer) (reference target : SparseVector) : SparseVector :=
  match n with
  | identity => target
  | meanCentering => target.mapValues (· + reference.mean)

@[simp] theorem keys_normalize (n : Normalizer) (reference target : SparseVector) :
    (n.normalize reference target).keys = target.keys := by
  cases n <;> simp [normalize]

@[simp] theorem keys_denormalize (n : Normalizer) (reference target : SparseVector) :
    (n.denormalize reference target).keys = target.keys := by
  cases n <;> simp [denormalize]

end Normalizer

end ItemNeighbors
