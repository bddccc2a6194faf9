import ItemNeighbors.Proofs.BuildHistories

/-!
# The lifecycle of a builder

A builder builds one model. Until then it can be told to build again and again, and afterwards its
data does not change. A similarity that leaves a call unanswered ends this for good.

- `Builder.Accounts`: what the results so far say about the state; every action keeps it.
- `Builder.BuiltWith`: the similarity of the build that has returned the model.
- `Builder.Lifecycle`: what can be seen of a new builder along a history.
- `Builder.lifecycle`: every history is like that.
-/

namespace ItemNeighbors

/-- Raised by the look-ups of a builder that has no model. -/
def BuildError.noModelYet : BuildError := .invalidState "no model has been built yet"

namespace Builder

open BuildError (noModelYet)

variable {b : Builder} {sim : Similarity} {history : List Action}
  {results : List (Except BuildFailure Model)}

/-! ## Results and states -/

/-- The results so far and the state tell the same story. -/
def Accounts (results : List (Except BuildFailure Model)) : BuildState → Prop
  | .unconfigured => ∀ r ∈ results, ∃ e, r = .error (.refused e)
  | .building => .error .similarityFailed ∈ results ∧ ∀ m, .ok m ∉ results
  | .built _ => results.countP (·.isOk) = 1 ∧ .error .similarityFailed ∉ results

theorem countP_isOk_eq_zero (h : ∀ m, .ok m ∉ results) : results.countP (·.isOk) = 0 := by
  rw [List.countP_eq_zero]
  rintro (e | m) hr
  · exact Bool.false_ne_true
  · exact absurd hr (h m)

theorem not_mem_of_refused (h : ∀ r ∈ results, ∃ e, r = .error (.refused e)) :
    .error .similarityFailed ∉ results ∧ ∀ m, .ok m ∉ results := by
  constructor
  · intro hmem
    obtain ⟨e, he⟩ := h _ hmem
    cases he
  · intro m hmem
    obtain ⟨e, he⟩ := h _ hmem
    cases he

/-- A refused build changes nothing. -/
theorem Accounts.concat_refused {state : BuildState} (h : Accounts results state)
    (error : BuildError) : Accounts (results ++ [.error (.refused error)]) state := by
  cases state with
  | unconfigured =>
    intro r hr
    rcases List.mem_append.mp hr with hr | hr
    · exact h r hr
    · exact ⟨error, List.mem_singleton.mp hr⟩
  | building => exact ⟨by simp [h.1], by simp [h.2]⟩
  | built c =>
    refine ⟨?_, by simp [h.2]⟩
    rw [List.countP_append, h.1]
    rfl

/-- Each action keeps the account. -/
theorem Accounts.step (h : Accounts results b.state) (action : Action) :
    Accounts (results ++ b.returned action) (b.step action).state := by
  cases action with
  | give part => simpa [returned, Builder.step] using h
  | ask query => simpa [returned, Builder.step] using h
  | build =>
    rw [returned, Builder.step]
    generalize b.build = outcome, b.buildStep_build = hstep
    cases hstep with
    | refused error asked j => exact h.concat_refused error
    | cutShort hconfigured htotal =>
      -- only a builder that has not been started gets that far, and so far it was only refused
      rw [hconfigured.state] at h
      exact ⟨by simp, by simp [(not_mem_of_refused h).2]⟩
    | finished hconfigured hrun =>
      rw [hconfigured.state] at h
      obtain ⟨hfailed, hok⟩ := not_mem_of_refused h
      refine ⟨?_, by simp [hfailed]⟩
      rw [List.countP_append, countP_isOk_eq_zero hok]
      rfl

/-- A whole history keeps the account. -/
theorem Accounts.run (h : Accounts results b.state) (history : List Action) :
    Accounts (results ++ b.results history) (b.run history).state := by
  induction history generalizing b results with
  | nil => simpa [Builder.results, Builder.run] using h
  | cons action history ih =>
    rw [Builder.results, ← List.append_assoc]
    exact ih (h.step action)

theorem accounts_new (history : List Action) :
    Accounts (new.results history) (new.run history).state := by
  have hnew : Accounts [] new.state := by
    simp [Accounts, new]
  exact hnew.run history

/-! ## The successful build -/

/-- A build of the history has returned a model, with this similarity. -/
def BuiltWith (history : List Action) (sim : Similarity) : Prop :=
  ∃ before later m, history = before ++ .build :: later ∧
    (new.run before).build.2.result = .ok m ∧ (new.run before).similarity = some sim

/-- The builder has kept the context of that build, with sets exactly if the similarity is
sparse. -/
theorem BuiltWith.exists_state (h : BuiltWith history sim) :
    ∃ c, (new.run history).state = .built c ∧
      ∀ user, (∃ found, c.userItemSet user = .ok found) ↔ sim.isSparse = true := by
  obtain ⟨before, later, m, rfl, hok, hsim⟩ := h
  obtain ⟨sim', factory, snapshot, c, matrix, j, hconfigured, hrun, hstate, -⟩ :=
    exists_of_build_eq_ok hok
  obtain rfl : sim = sim' := Option.some.inj (hsim.symm.trans hconfigured.similarity)
  refine ⟨c, ?_, fun user => ?_⟩
  · rw [run_append]
    exact (run_of_refuses build_of_built hstate later).1
  · obtain ⟨tr, htr, rfl, -⟩ := exists_of_run_assemble_eq_ok hrun
    rw [(BuildContext.frozen_of_transpose htr).userItemSet user]
    cases sim.isSparse <;> simp

/-- A model among the results has been built with some similarity. -/
theorem exists_builtWith {m : Model} (h : .ok m ∈ new.results history) :
    ∃ sim, BuiltWith history sim := by
  obtain ⟨before, later, rfl, hok⟩ := exists_build_of_mem_results h
  obtain ⟨sim, factory, snapshot, c, matrix, j, hconfigured, -⟩ := exists_of_build_eq_ok hok
  exact ⟨sim, before, later, m, rfl, hok, hconfigured.similarity⟩

/-- A build is cut short by a similarity that was given and does not answer every call. -/
theorem exists_not_total (h : .error .similarityFailed ∈ new.results history) :
    ∃ sim, .give (.similarity sim) ∈ history ∧ ¬ sim.Total := by
  obtain ⟨before, later, rfl, hfailed⟩ := exists_build_of_mem_results h
  obtain ⟨sim, hsim, htotal⟩ := exists_not_total_of_build hfailed
  rcases mem_of_similarity_run hsim with hnew | hmem
  · cases hnew
  · exact ⟨sim, List.mem_append_left _ hmem, htotal⟩

/-! ## Phases -/

theorem map_context_eq_error_iff {α : Type} (f : BuildContext → α) {e : BuildError} :
    b.context.map f = .error e ↔ b.phase ≠ .built ∧ e = noModelYet := by
  cases hstate : b.state <;>
    simp [context, phase, hstate, Except.map, noModelYet, eq_comm]

theorem ask_of_phase_ne (h : b.phase ≠ .built) (query : Query) :
    b.ask query = .error noModelYet := by
  have hcontext : b.context = .error noModelYet := by
    cases hstate : b.state with
    | unconfigured => rw [context, hstate]; rfl
    | building => rw [context, hstate]; rfl
    | built c => exact absurd (by rw [phase, hstate]) h
  cases query <;> simp only [ask, itemCount, items, itemVector, userItemSet, hcontext] <;> rfl

theorem exists_state_of_built (h : b.phase = .built) : ∃ c, b.state = .built c := by
  cases hstate : b.state with
  | unconfigured => simp [phase, hstate] at h
  | building => simp [phase, hstate] at h
  | built c => exact ⟨c, rfl⟩

theorem state_of_building (h : b.phase = .building) : b.state = .building := by
  cases hstate : b.state with
  | unconfigured => simp [phase, hstate] at h
  | building => rfl
  | built c => simp [phase, hstate] at h

/-- The phase tells whether there has been a model, a cut, or neither. -/
theorem phase_run_iff (history : List Action) :
    ((new.run history).phase = .built ↔ ∃ m, .ok m ∈ new.results history) ∧
      ((new.run history).phase = .building ↔ .error .similarityFailed ∈ new.results history) := by
  have haccounts := accounts_new history
  cases hstate : (new.run history).state with
  | unconfigured =>
    rw [hstate] at haccounts
    obtain ⟨hfailed, hok⟩ := not_mem_of_refused haccounts
    simp [phase, hstate, hfailed, hok]
  | building =>
    rw [hstate] at haccounts
    simp [phase, hstate, haccounts.1, haccounts.2]
  | built c =>
    rw [hstate] at haccounts
    have hok : ∃ m, .ok m ∈ new.results history := by
      by_contra hnone
      have hzero := countP_isOk_eq_zero (not_exists.mp hnone)
      exact absurd (haccounts.1.symm.trans hzero) Nat.one_ne_zero
    simp [phase, hstate, haccounts.2, hok]

theorem countP_results_le_one (history : List Action) :
    (new.results history).countP (·.isOk) ≤ 1 := by
  have haccounts := accounts_new history
  cases hstate : (new.run history).state with
  | unconfigured =>
    rw [hstate] at haccounts
    rw [countP_isOk_eq_zero (not_mem_of_refused haccounts).2]
    exact Nat.zero_le 1
  | building =>
    rw [hstate] at haccounts
    rw [countP_isOk_eq_zero haccounts.2]
    exact Nat.zero_le 1
  | built c =>
    rw [hstate] at haccounts
    exact haccounts.1.le

/-- A refused build leaves the phase as it is. -/
theorem phase_build_of_refused {e : BuildError} (h : b.build.2.result = .error (.refused e)) :
    b.build.1.phase = b.phase := by
  generalize b.build = outcome, b.buildStep_build = hstep at *
  cases hstep with
  | refused error asked j => rfl
  | cutShort hconfigured htotal => cases h
  | finished hconfigured hrun => cases h

theorem userItemSet_of_state {c : BuildContext} (h : b.state = .built c) (user : UserId) :
    b.userItemSet user = c.userItemSet user := by
  rw [userItemSet, context, h]
  rfl

/-- The sets can be looked up exactly if the model was built with a sparse similarity. -/
theorem exists_userItemSet_iff {user : UserId} :
    (∃ found, (new.run history).userItemSet user = .ok found) ↔
      (new.run history).phase = .built ∧
        ∃ sim, BuiltWith history sim ∧ sim.isSparse = true := by
  constructor
  · rintro ⟨found, hfound⟩
    have hbuilt : (new.run history).phase = .built := by
      by_contra hphase
      have hask := ask_of_phase_ne hphase (.userItemSet user)
      rw [ask, hfound] at hask
      cases hask
    obtain ⟨m, hm⟩ := (phase_run_iff history).1.mp hbuilt
    obtain ⟨sim, hsim⟩ := exists_builtWith hm
    obtain ⟨c, hstate, hsets⟩ := hsim.exists_state
    rw [userItemSet_of_state hstate] at hfound
    exact ⟨hbuilt, sim, hsim, (hsets user).mp ⟨found, hfound⟩⟩
  · rintro ⟨-, sim, hsim, hsparse⟩
    obtain ⟨c, hstate, hsets⟩ := hsim.exists_state
    rw [userItemSet_of_state hstate]
    exact (hsets user).mpr hsparse

/-! ## Lifecycles -/

/-- What can be seen of a new builder along a history. -/
structure Lifecycle (history : List Action) : Prop where
  /-- At most one build returns a model. -/
  once : (new.results history).countP (·.isOk) ≤ 1
  built_iff : (new.run history).phase = .built ↔ ∃ m, .ok m ∈ new.results history
  /-- After it all builds are refused, and the answers stay the same. -/
  built_stays : (new.run history).phase = .built → ∀ later,
    (∀ r ∈ (new.run history).results later, r = .error (.refused .alreadyBuilt)) ∧
      ∀ query, (new.run (history ++ later)).ask query = (new.run history).ask query
  itemCount : ∀ e, (new.run history).itemCount = .error e ↔
    (new.run history).phase ≠ .built ∧ e = noModelYet
  items : ∀ e, (new.run history).items = .error e ↔
    (new.run history).phase ≠ .built ∧ e = noModelYet
  itemVector : ∀ item e, (new.run history).itemVector item = .error e ↔
    (new.run history).phase ≠ .built ∧ e = noModelYet
  userItemSet : ∀ user, (∃ found, (new.run history).userItemSet user = .ok found) ↔
    (new.run history).phase = .built ∧ ∃ sim, BuiltWith history sim ∧ sim.isSparse = true
  /-- A refused build can be tried again. -/
  refused : ∀ e, (new.run history).phase = .unconfigured →
    (new.run history).build.2.result = .error (.refused e) →
      (new.run history).build.1.phase = .unconfigured ∧
        ∀ query, (new.run history).build.1.ask query = .error noModelYet
  building_iff : (new.run history).phase = .building ↔
    .error .similarityFailed ∈ new.results history
  unanswered : .error .similarityFailed ∈ new.results history →
    ∃ sim, .give (.similarity sim) ∈ history ∧ ¬ sim.Total
  /-- A build that was cut short is the end: there was no model and there will be none. -/
  building_stays : (new.run history).phase = .building → ∀ later,
    (∀ r ∈ (new.run history).results later,
      r = .error (.refused (.invalidState "build() is not reentrant"))) ∧
        ∀ m, .ok m ∉ new.results (history ++ later)

/-- **Every history of a new builder is a lifecycle**, whatever parts it is given, in whatever
order, and however often it is told to build. -/
theorem lifecycle (history : List Action) : Lifecycle history where
  once := countP_results_le_one history
  built_iff := (phase_run_iff history).1
  built_stays := by
    intro h later
    obtain ⟨c, hstate⟩ := exists_state_of_built h
    obtain ⟨hstays, hresults⟩ := run_of_refuses build_of_built hstate later
    refine ⟨hresults, fun query => ask_of_state_eq ?_ query⟩
    rw [run_append, hstays, hstate]
  itemCount := fun e => map_context_eq_error_iff _
  items := fun e => map_context_eq_error_iff _
  itemVector := fun item e => map_context_eq_error_iff _
  userItemSet := fun user => exists_userItemSet_iff
  refused := by
    intro e h hrefused
    have hphase := (phase_build_of_refused hrefused).trans h
    exact ⟨hphase, ask_of_phase_ne (by simp [hphase])⟩
  building_iff := (phase_run_iff history).2
  unanswered := exists_not_total
  building_stays := by
    intro h later
    have hstate := state_of_building h
    obtain ⟨hstays, hresults⟩ := run_of_refuses build_of_building hstate later
    refine ⟨hresults, fun m hm => ?_⟩
    have hbuilt := (phase_run_iff (history ++ later)).1.mpr ⟨m, hm⟩
    rw [run_append, phase, hstays] at hbuilt
    cases hbuilt

end Builder

end ItemNeighbors
