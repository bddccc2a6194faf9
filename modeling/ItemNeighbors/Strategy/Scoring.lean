import ItemNeighbors.Similarity
import ItemNeighbors.SimilarityMatrix.Accumulator
import ItemNeighbors.Strategy

/-!
# Scoring runs

A run of a strategy asks the similarity for one pair after the other and files the answers. It
keeps a journal of what it did, which outlives a failure.

- `Journal`: the calls and puts of a run in order, and its notes.
- `Strategy.buildMatrix`: the run of a strategy on a context.
-/

namespace ItemNeighbors

/-- Why a build ends without a model. -/
inductive BuildFailure where
  /-- The build was refused. -/
  | refused (error : BuildError)
  /-- The similarity gave no answer. -/
  | similarityFailed
deriving DecidableEq

/-- What a run does, as far as others can tell. -/
inductive Event where
  /-- The similarity was asked to score the vectors `a` of `item` and `b` of `other`. -/
  | asked (item other : ItemId) (a b : SparseVector)
  /-- A score was put into the row of `item`; the attempt counts. -/
  | put (item other : ItemId) (score : Float)
deriving DecidableEq

/-- Whether the pairs that are counted have an order. -/
inductive PairKind where
  | ordered
  | unordered
deriving DecidableEq

namespace PairKind

/-- The word for it. -/
def name : PairKind → String
  | ordered => "ordered"
  | unordered => "unordered"

end PairKind

/-- What a strategy counts its pairs as. -/
def Strategy.pairKind (s : Strategy) : PairKind :=
  if s.isSymmetric then .unordered else .ordered

/-- What a build notes down on its way. -/
inductive BuildNote where
  /-- The strategy has been chosen. -/
  | usingStrategy (strategy : Strategy)
  /-- The transposition begins. -/
  | buildingItemData
  /-- So many pairs are about to be scored. -/
  | scoringAll (pairs : Nat) (kind : PairKind)
  /-- So many pairs have been scored. -/
  | scoredCommon (pairs : Nat) (kind : PairKind)
deriving DecidableEq

namespace BuildNote

/-- The text of a note. -/
def text : BuildNote → String
  | usingStrategy strategy => "Using the " ++ strategy.name ++ " build strategy"
  | buildingItemData => "Building item data"
  | scoringAll pairs kind =>
    "Scoring all " ++ toString pairs ++ " " ++ kind.name ++ " item pairs"
  | scoredCommon pairs kind =>
    "Scored " ++ toString pairs ++ " " ++ kind.name ++ " item pairs with common users"

end BuildNote

/-- The record of a build. -/
structure Journal where
  /-- How often the similarity has been asked, earlier builds included. -/
  asked : Nat
  /-- How many pairs this build has scored and filed. -/
  filed : Nat
  events : Array Event
  notes : Array BuildNote
deriving DecidableEq

namespace Journal

/-- The journal of a build before it starts, for a similarity that was asked before. -/
def start (asked : Nat) : Journal := ⟨asked, 0, #[], #[]⟩

/-- The puts in order. -/
def puts (j : Journal) : List (ItemId × ItemId × Float) :=
  j.events.toList.filterMap fun
    | .put item other score => some (item, other, score)
    | .asked .. => none

end Journal

/-- A part of a run: it may fail, and the journal is kept either way. -/
abbrev Scoring := ExceptT BuildFailure (StateM Journal)

namespace Scoring

/-- Writes a note down. -/
def note (n : BuildNote) : Scoring Unit :=
  modify fun j => { j with notes := j.notes.push n }

/-- Goes on with a result, if there is one. -/
def require {α : Type} (result : Except BuildError α) : Scoring α :=
  match result with
  | .ok a => pure a
  | .error e => throw (.refused e)

/-- Asks a similarity for the score of two items. -/
def ask (similarity : Similarity) (item other : ItemId) (a b : SparseVector) :
    Scoring Float := do
  let before := (← get).asked
  modify fun j => { j with asked := j.asked + 1, events := j.events.push (.asked item other a b) }
  match similarity.score before a b with
  | some score => pure score
  | none => throw .similarityFailed

/-- Puts a score into the row of an item. -/
def put {α : Type} [ScoreAccumulator α] (acc : α) (item other : ItemId) (score : Float) :
    Scoring α := do
  modify fun j => { j with events := j.events.push (.put item other score) }
  require (ScoreAccumulator.put acc item other score)

end Scoring

namespace Strategy

open Scoring

variable {α : Type} [ScoreAccumulator α]

/-- Files the score of a pair in the directions that the strategy asks for. -/
def file (s : Strategy) (acc : α) (item other : ItemId) (score : Float) : Scoring α := do
  let acc ← put acc item other score
  let acc ← if s.isSymmetric then put acc other item score else pure acc
  modify fun j => { j with filed := j.filed + 1 }
  return acc

/-- Scores one pair and files the answer. -/
def scorePair (s : Strategy) (similarity : Similarity) (c : BuildContext) (item : ItemId)
    (vector : SparseVector) (acc : α) (other : ItemId) : Scoring α := do
  let otherVector ← require (c.itemVector other)
  let score ← ask similarity item other vector otherVector
  s.file acc item other score

/-- Scores an item together with each of its partners. -/
def scoreItem (s : Strategy) (similarity : Similarity) (c : BuildContext) (acc : α)
    (item : ItemId) : Scoring α := do
  let vector ← require (c.itemVector item)
  let others ← require (s.partners c item vector)
  others.foldlM (s.scorePair similarity c item vector) acc

/-- Scores all items of the context in ascending order, into a given accumulator. A strategy that
scores all pairs knows their number beforehand and notes it first; the others note it last. -/
def buildMatrix (s : Strategy) (similarity : Similarity) (c : BuildContext) (acc : α) :
    Scoring SimilarityMatrix := do
  if !s.isSparse then
    note (.scoringAll (s.pairCount c.items.size) s.pairKind)
  let acc ← c.items.toList.foldlM (s.scoreItem similarity c) acc
  if s.isSparse then
    note (.scoredCommon (← get).filed s.pairKind)
  return ScoreAccumulator.toMatrix acc

end Strategy

end ItemNeighbors
