import ItemNeighbors.Proofs.BuildResults
import ItemNeighbors.Proofs.StepwiseLaws

/-!
# Histories of a builder

A builder is given parts, is told to build and is asked for the data of its build, in any order
and any number of times.

- `Action`, `Builder.run`: histories and what they make of a builder.
- `Builder.results`: what the builds of a history came to, in order.
- `Builder.BuildStep`: the ways in which a build can go.
- `Builder.run_of_refuses`: a builder that refuses every build stays as it is.
-/

namespace ItemNeighbors

/-- A part of a build, as it is given to a builder. -/
inductive Part where
  | similarity (similarity : Similarity)
  | factory (factory : AccumulatorFactory)
  | snapshot (snapshot : Snapshot)
  | baseline (baseline : Baseline)
  | normalizer (normalizer : Normalizer)

/-- A question about the data of a finished build. -/
inductive Query where
  | itemCount
  | items
  | itemVector (item : ItemId)
  | userItemSet (user : UserId)

/-- The answer to a question. -/
inductive Answer where
  | itemCount (count : Nat)
  | items (items : ItemSet)
  | itemVector (vector : Option SparseVector)
  | userItemSet (items : Option ItemSet)

/-- What is done with a builder. -/
inductive Action where
  | give (part : Part)
  | build
  | ask (query : Query)

namespace Builder

variable {b b' : Builder} {sim : Similarity} {factory : AccumulatorFactory} {snapshot : Snapshot}

/-- Sets a part. -/
def give (b : Builder) : Part → Builder
  | .similarity similarity => b.withSimilarity similarity
  | .factory factory => b.withAccumulatorFactory factory
  | .snapshot snapshot => b.withNormalizedSnapshot snapshot
  | .baseline baseline => b.withBaseline baseline
  | .normalizer normalizer => b.withNormalizer normalizer

/-- Answers a question. -/
def ask (b : Builder) : Query → Except BuildError Answer
  | .itemCount => b.itemCount.map .itemCount
  | .items => b.items.map .items
  | .itemVector item => (b.itemVector item).map .itemVector
  | .userItemSet user => (b.userItemSet user).map .userItemSet

/-- What an action makes of the builder. -/
def step (b : Builder) : Action → Builder
  | .give part => b.give part
  | .build => b.build.1
  | .ask _ => b

/-- What a history makes of the builder. -/
def run (b : Builder) (history : List Action) : Builder :=
  history.foldl step b

/-- What an action comes to if it is a build. -/
def returned (b : Builder) : Action → List (Except BuildFailure Model)
  | .build => [b.build.2.result]
  | _ => []

/-- What the builds of a history come to. -/
def results (b : Builder) : List Action → List (Except BuildFailure Model)
  | [] => []
  | action :: history => b.returned action ++ (b.step action).results history

theorem run_append (b : Builder) (before later : List Action) :
    b.run (before ++ later) = (b.run before).run later :=
  List.foldl_append

/-- Every result is that of a build in the history. -/
theorem exists_build_of_mem_results {history : List Action} {r : Except BuildFailure Model}
    (h : r ∈ b.results history) :
    ∃ before later, history = before ++ .build :: later ∧ (b.run before).build.2.result = r := by
  induction history generalizing b with
  | nil => simp [results] at h
  | cons action history ih =>
    rcases List.mem_append.mp h with h | h
    · cases action with
      | build => exact ⟨[], history, rfl, (List.mem_singleton.mp h).symm⟩
      | give part => cases h
      | ask query => cases h
    · obtain ⟨before, later, rfl, hr⟩ := ih h
      exact ⟨action :: before, later, rfl, hr⟩

/-! ## Builds -/

theorem build_of_building (h : b.state = .building) :
    b.build = b.refuse (.invalidState "build() is not reentrant") := by
  rw [build, h]

theorem build_of_built {c : BuildContext} (h : b.state = .built c) :
    b.build = b.refuse .alreadyBuilt := by
  rw [build, h]

/-- A builder can build, or it refuses however often its similarity has been asked. -/
theorem configured_or_refuses (b : Builder) :
    (∃ sim factory snapshot, b.Configured sim factory snapshot) ∨
      ∃ error, ∀ asked, ({ b with asked } : Builder).build =
        ({ b with asked } : Builder).refuse error := by
  cases hstate : b.state with
  | building => exact .inr ⟨_, fun asked => by rw [build]⟩
  | built c => exact .inr ⟨_, fun asked => by rw [build]⟩
  | unconfigured =>
    cases hsim : b.similarity with
    | none => exact .inr ⟨_, fun asked => by rw [build]⟩
    | some sim =>
      cases hfactory : b.factory with
      | none => exact .inr ⟨_, fun asked => by rw [build]⟩
      | some factory =>
        cases hsnapshot : b.snapshot with
        | none => exact .inr ⟨_, fun asked => by rw [build]⟩
        | some snapshot =>
          exact .inl ⟨sim, factory, snapshot, phase_eq_unconfigured_iff.mpr hstate, hsim,
            hfactory, hsnapshot⟩

/-- The ways in which a build can go. -/
inductive BuildStep (b : Builder) : Builder × BuildOutcome → Prop where
  /-- The state or a missing part is in the way, or the run is refused. -/
  | refused (error : BuildError) (asked : Nat) (j : Journal) :
      BuildStep b ({ b with asked }, ⟨.error (.refused error), j⟩)
  /-- The similarity leaves a call unanswered. -/
  | cutShort {sim : Similarity} {factory : AccumulatorFactory} {snapshot : Snapshot} {j : Journal}
      (h : b.Configured sim factory snapshot) (htotal : ¬ sim.Total) :
      BuildStep b
        ({ b with asked := j.asked, state := .building }, ⟨.error .similarityFailed, j⟩)
  /-- The run ends with a matrix. -/
  | finished {sim : Similarity} {factory : AccumulatorFactory} {snapshot : Snapshot}
      {c : BuildContext} {m : SimilarityMatrix} {j : Journal}
      (h : b.Configured sim factory snapshot)
      (hrun : (assemble sim factory snapshot).run (.start b.asked) = (.ok (c, m), j)) :
      BuildStep b ({ b with asked := j.asked, state := .built c },
        ⟨.ok { matrix := m, normalizer := b.normalizer, baseline := b.baseline, items := c.items },
          j⟩)

theorem buildStep_of_configured (h : b.Configured sim factory snapshot) : BuildStep b b.build := by
  rcases hrun : (assemble sim factory snapshot).run (.start b.asked) with ⟨result, j⟩
  match result with
  | .ok (c, m) =>
    rw [build_of_run_eq_ok h hrun]
    exact .finished h hrun
  | .error (.refused error) =>
    rw [build_of_run_eq_refused h hrun]
    exact .refused error j.asked j
  | .error .similarityFailed =>
    rw [build_of_run_eq_failed h hrun]
    exact .cutShort h (Similarity.not_total_of_run_assemble hrun)

/-- Every build goes one of these ways. -/
theorem buildStep_build (b : Builder) : BuildStep b b.build := by
  rcases b.configured_or_refuses with ⟨sim, factory, snapshot, hconfigured⟩ | ⟨error, hrefuses⟩
  · exact buildStep_of_configured hconfigured
  · rw [hrefuses b.asked]
    exact .refused error b.asked (.start b.asked)

/-- A build that returns a model was started with all parts and has run to its end. -/
theorem exists_of_build_eq_ok {m : Model} (h : b.build.2.result = .ok m) :
    ∃ sim factory snapshot c matrix j, b.Configured sim factory snapshot ∧
      (assemble sim factory snapshot).run (.start b.asked) = (.ok (c, matrix), j) ∧
        b.build.1.state = .built c ∧
          m = { matrix, normalizer := b.normalizer, baseline := b.baseline, items := c.items } := by
  generalize b.build = outcome, b.buildStep_build = hstep at *
  cases hstep with
  | refused error asked j => cases h
  | cutShort hconfigured htotal => cases h
  | finished hconfigured hrun =>
    exact ⟨_, _, _, _, _, _, hconfigured, hrun, rfl, (Except.ok.inj h).symm⟩

/-- A build is cut short by a similarity that does not answer every call. -/
theorem exists_not_total_of_build (h : b.build.2.result = .error .similarityFailed) :
    ∃ sim, b.similarity = some sim ∧ ¬ sim.Total := by
  generalize b.build = outcome, b.buildStep_build = hstep at *
  cases hstep with
  | refused error asked j => cases h
  | cutShort hconfigured htotal => exact ⟨_, hconfigured.similarity, htotal⟩
  | finished hconfigured hrun => cases h

/-- A build leaves the parts as they are. -/
theorem exists_build_eq (b : Builder) : ∃ asked state, b.build.1 = { b with asked, state } := by
  generalize b.build = outcome, b.buildStep_build = hstep
  cases hstep with
  | refused error asked j => exact ⟨asked, b.state, rfl⟩
  | cutShort hconfigured htotal => exact ⟨_, _, rfl⟩
  | finished hconfigured hrun => exact ⟨_, _, rfl⟩

/-! ## Parts and states along a history -/

@[simp] theorem state_give (b : Builder) (part : Part) : (b.give part).state = b.state := by
  cases part <;> rfl

/-- The similarity of a builder is the one it had, or one that it was given. -/
theorem mem_of_similarity_run {history : List Action}
    (h : (b.run history).similarity = some sim) :
    b.similarity = some sim ∨ .give (.similarity sim) ∈ history := by
  induction history generalizing b with
  | nil => exact .inl h
  | cons action history ih =>
    rcases ih (b := b.step action) h with hstep | hmem
    · cases action with
      | give part =>
        cases part with
        | similarity given =>
          obtain rfl : given = sim := Option.some.inj hstep
          exact .inr List.mem_cons_self
        | factory factory => exact .inl hstep
        | snapshot snapshot => exact .inl hstep
        | baseline baseline => exact .inl hstep
        | normalizer normalizer => exact .inl hstep
      | build =>
        obtain ⟨asked, state, heq⟩ := b.exists_build_eq
        rw [step, heq] at hstep
        exact .inl hstep
      | ask query => exact .inl hstep
    · exact .inr (List.mem_cons_of_mem _ hmem)

/-- A builder whose builds are all refused because of its state stays in it. -/
theorem run_of_refuses {state : BuildState} {error : BuildError}
    (hrefuse : ∀ {b : Builder}, b.state = state → b.build = b.refuse error)
    (h : b.state = state) (later : List Action) :
    (b.run later).state = state ∧ ∀ r ∈ b.results later, r = .error (.refused error) := by
  induction later generalizing b with
  | nil => exact ⟨h, by simp [results]⟩
  | cons action later ih =>
    have hstep : (b.step action).state = state ∧
        ∀ r ∈ b.returned action, r = .error (.refused error) := by
      cases action with
      | give part => exact ⟨(b.state_give part).trans h, by simp [returned]⟩
      | build =>
        rw [step, returned, hrefuse h]
        exact ⟨h, by simp [refuse]⟩
      | ask query => exact ⟨h, by simp [returned]⟩
    obtain ⟨hstate, hresults⟩ := ih hstep.1
    refine ⟨hstate, fun r hr => ?_⟩
    rcases List.mem_append.mp hr with hr | hr
    · exact hstep.2 r hr
    · exact hresults r hr

/-- The answers depend on the state only. -/
theorem ask_of_state_eq (h : b.state = b'.state) (query : Query) : b.ask query = b'.ask query := by
  have hcontext : b.context = b'.context := by
    rw [context, context, h]
  cases query <;> simp only [ask, itemCount, items, itemVector, userItemSet, hcontext]

end Builder

end ItemNeighbors
