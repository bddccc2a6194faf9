import Std.Data.HashSet
import ItemNeighbors.BuildContext

/-!
# Build strategies

Which pairs of items are scored, and whether a score is filed in one direction or in both, follows
from the promises of the similarity.

- `Strategy`: the four ways to fill a matrix, and `Strategy.select`, the choice among them.
- `Strategy.partners`: the items that are scored together with a given item.
-/

namespace ItemNeighbors

/-- The ways to fill a similarity matrix. -/
inductive Strategy where
  /-- Every ordered pair of distinct items. -/
  | simple
  /-- Every unordered pair, filed in both directions. -/
  | symmetric
  /-- Every ordered pair of items with a common user. -/
  | sparse
  /-- Every unordered pair of items with a common user, filed in both directions. -/
  | sparseSymmetric
deriving DecidableEq

namespace Strategy

/-- The strategy that makes the most of what a similarity promises. -/
def select (isSparse isSymmetric : Bool) : Strategy :=
  match isSparse, isSymmetric with
  | true, true => sparseSymmetric
  | true, false => sparse
  | false, true => symmetric
  | false, false => simple

/-- Whether only pairs with a common user are scored. -/
def isSparse : Strategy → Bool
  | sparse | sparseSymmetric => true
  | simple | symmetric => false

/-- Whether each pair is scored once and filed in both directions. -/
def isSymmetric : Strategy → Bool
  | symmetric | sparseSymmetric => true
  | simple | sparse => false

@[simp] theorem select_isSparse_isSymmetric (s : Strategy) :
    select s.isSparse s.isSymmetric = s := by
  cases s <;> rfl

@[simp] theorem isSparse_select (isSparse isSymmetric : Bool) :
    (select isSparse isSymmetric).isSparse = isSparse := by
  cases isSparse <;> cases isSymmetric <;> rfl

@[simp] theorem isSymmetric_select (isSparse isSymmetric : Bool) :
    (select isSparse isSymmetric).isSymmetric = isSymmetric := by
  cases isSparse <;> cases isSymmetric <;> rfl

/-- The name under which a strategy is reported. -/
def name : Strategy → String
  | simple => "Simple"
  | symmetric => "Symmetric"
  | sparse => "SparseOptimized"
  | sparseSymmetric => "SparseSymmetricOptimized"

/-- Whether the strategy looks up the items of users, so that a build has to collect them. -/
def needsUserItemSets (s : Strategy) : Bool := s.isSparse

/-- Whether `other` is scored together with `item` when it is the turn of `item`. If each pair is
scored once, that happens at the turn of the larger item. -/
def admits (s : Strategy) (item other : ItemId) : Bool :=
  if s.isSymmetric then other < item else other != item

/-- The items of all users of a vector. -/
def coRatedItems (c : BuildContext) (vector : SparseVector) :
    Except BuildError (Std.HashSet ItemId) :=
  vector.keys.foldlM (fun found user =>
    match c.userItemSet user with
    | .ok (some items) => .ok (found.insertMany items.toList)
    | .ok none => .ok found
    | .error e => .error e) ∅

/-- The items that are scored at the turn of `item`, in ascending order, whatever the order in which
a hash set lists them. -/
def partners (s : Strategy) (c : BuildContext) (item : ItemId) (vector : SparseVector) :
    Except BuildError (List ItemId) :=
  if s.isSparse then do
    let found ← coRatedItems c vector
    return (ItemSet.ofList (found.toList.filter (s.admits item))).toList
  else
    return c.items.toList.filter (s.admits item)

/-- How many pairs a strategy that scores all pairs has to score among `n` items. -/
def pairCount (s : Strategy) (n : Nat) : Nat :=
  if s.isSymmetric then n * (n - 1) / 2 else n * (n - 1)

end Strategy

end ItemNeighbors
