import ItemNeighbors.Model
import ItemNeighbors.Strategy.Scoring

/-!
# Model builders

A builder is given its parts in any order and then builds one model. Afterwards the frozen data of
the build can be looked up; before, every look-up is an error.

- `Builder.new` and the functions `Builder.with…`: the parts of a build.
- `Builder.build`: the build. A refused build leaves the builder as it was before.
- `Builder.phase`: where the builder stands.
-/

namespace ItemNeighbors

/-- Where a builder stands. -/
inductive BuildPhase where
  | unconfigured
  | building
  | built
deriving DecidableEq

/-- Where a builder stands, with the data of the build it has finished. -/
inductive BuildState where
  | unconfigured
  /-- A build was begun and never came to an end. -/
  | building
  | built (context : BuildContext)

/-- The parts of a build and its state. -/
structure Builder where
  similarity : Option Similarity
  /-- How often the present similarity has been asked. -/
  asked : Nat
  factory : Option AccumulatorFactory
  snapshot : Option Snapshot
  baseline : Option Baseline
  normalizer : Normalizer
  state : BuildState

/-- What came of a build, and its journal. -/
structure BuildOutcome where
  result : Except BuildFailure Model
  journal : Journal

namespace Builder

/-- A builder without parts; it normalizes nothing. -/
def new : Builder where
  similarity := none
  asked := 0
  factory := none
  snapshot := none
  baseline := none
  normalizer := .identity
  state := .unconfigured

/-- Sets the similarity, which has not been asked yet. -/
def withSimilarity (b : Builder) (similarity : Similarity) : Builder :=
  { b with similarity := some similarity, asked := 0 }

/-- Sets what makes the accumulator of the scores. -/
def withAccumulatorFactory (b : Builder) (factory : AccumulatorFactory) : Builder :=
  { b with factory := some factory }

/-- Sets the ratings. They have to be normalized; a build does not do that. -/
def withNormalizedSnapshot (b : Builder) (snapshot : Snapshot) : Builder :=
  { b with snapshot := some snapshot }

/-- Sets the baseline, which is handed on to the model. -/
def withBaseline (b : Builder) (baseline : Baseline) : Builder :=
  { b with baseline := some baseline }

/-- Sets the normalizer, which is handed on to the model. -/
def withNormalizer (b : Builder) (normalizer : Normalizer) : Builder :=
  { b with normalizer }

/-- Where the builder stands. -/
def phase (b : Builder) : BuildPhase :=
  match b.state with
  | .unconfigured => .unconfigured
  | .building => .building
  | .built _ => .built

/-- The data of the finished build. -/
def context (b : Builder) : Except BuildError BuildContext :=
  match b.state with
  | .built context => .ok context
  | _ => .error (.invalidState "no model has been built yet")

/-- How many items the finished build had. -/
def itemCount (b : Builder) : Except BuildError Nat :=
  b.context.map BuildContext.itemCount

/-- The universe of the finished build. -/
def items (b : Builder) : Except BuildError ItemSet :=
  b.context.map BuildContext.items

/-- The vector of an item in the finished build. -/
def itemVector (b : Builder) (item : ItemId) : Except BuildError (Option SparseVector) :=
  b.context.map (·.itemVector? item)

/-- The items of a user in the finished build, if it collected them. -/
def userItemSet (b : Builder) (user : UserId) : Except BuildError (Option ItemSet) :=
  b.context.bind (·.userItemSet user)

/-- Transposes the ratings and scores the items by the strategy that the similarity selects. -/
def assemble (similarity : Similarity) (factory : AccumulatorFactory) (snapshot : Snapshot) :
    Scoring (BuildContext × SimilarityMatrix) := do
  let strategy := Strategy.select similarity.isSparse similarity.isSymmetric
  Scoring.note (.usingStrategy strategy)
  let items := ItemSet.ofList snapshot.itemIds
  Scoring.note .buildingItemData
  let transposed ← Scoring.require (snapshot.transpose items strategy.needsUserItemSets)
  let context := BuildContext.freeze items transposed
  let matrix ← strategy.buildMatrix similarity context (factory items)
  return (context, matrix)

/-- A build that ends before it has begun. -/
def refuse (b : Builder) (error : BuildError) : Builder × BuildOutcome :=
  (b, ⟨.error (.refused error), Journal.start b.asked⟩)

/-- Builds the model. The state is checked first, then the parts. A similarity that gives no answer
leaves the builder in the middle of the build for good. -/
def build (b : Builder) : Builder × BuildOutcome :=
  match b.state with
  | .built _ => b.refuse .alreadyBuilt
  | .building => b.refuse (.invalidState "build() is not reentrant")
  | .unconfigured =>
    match b.similarity, b.factory, b.snapshot with
    | none, _, _ => b.refuse (.missingConfiguration "item similarity")
    | some _, none, _ => b.refuse (.missingConfiguration "similarity matrix accumulator factory")
    | some _, some _, none => b.refuse (.missingConfiguration "normalized rating snapshot")
    | some similarity, some factory, some snapshot =>
      let (result, journal) := (assemble similarity factory snapshot).run (Journal.start b.asked)
      let b := { b with asked := journal.asked }
      match result with
      | .ok (context, matrix) =>
        let model :=
          { matrix, normalizer := b.normalizer, baseline := b.baseline, items := context.items }
        ({ b with state := .built context }, ⟨.ok model, journal⟩)
      | .error (.refused error) => (b, ⟨.error (.refused error), journal⟩)
      | .error .similarityFailed =>
        ({ b with state := .building }, ⟨.error .similarityFailed, journal⟩)

end Builder

end ItemNeighbors
