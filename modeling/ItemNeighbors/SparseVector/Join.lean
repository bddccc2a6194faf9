import ItemNeighbors.SparseVector

/-!
# What two vectors have in common

Two cursors walk through the ascending keys of both vectors and stop together at each common key.

- `SparseVector.coEntries`: the values of both vectors for the keys they share, in key order.
- `SparseVector.dot`: the inner product, summed up from positive zero while walking.
-/

namespace ItemNeighbors

namespace SparseVector

/-- Walks on from two positions and adds the values of common keys to `found`. -/
def coEntriesFrom (a b : Array Entry) (i j : Nat) (found : Array (Float × Float)) :
    Array (Float × Float) :=
  if h : i < a.size ∧ j < b.size then
    if a[i].1 < b[j].1 then coEntriesFrom a b (i + 1) j found
    else if b[j].1 < a[i].1 then coEntriesFrom a b i (j + 1) found
    else coEntriesFrom a b (i + 1) (j + 1) (found.push (a[i].2, b[j].2))
  else found
termination_by (a.size - i) + (b.size - j)

/-- The values of both vectors for the keys they have in common, in ascending key order. -/
def coEntries (a b : SparseVector) : List (Float × Float) :=
  (coEntriesFrom a.entries b.entries 0 0 #[]).toList

/-- Walks on from two positions and adds the products for common keys to `sum`. -/
def dotFrom (a b : Array Entry) (i j : Nat) (sum : Float) : Float :=
  if h : i < a.size ∧ j < b.size then
    if a[i].1 < b[j].1 then dotFrom a b (i + 1) j sum
    else if b[j].1 < a[i].1 then dotFrom a b i (j + 1) sum
    else dotFrom a b (i + 1) (j + 1) (sum + a[i].2 * b[j].2)
  else sum
termination_by (a.size - i) + (b.size - j)

/-- The inner product. -/
def dot (a b : SparseVector) : Float :=
  dotFrom a.entries b.entries 0 0 0.0

end SparseVector

end ItemNeighbors
