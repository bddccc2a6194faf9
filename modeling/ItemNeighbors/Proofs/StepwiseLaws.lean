import ItemNeighbors.Builder
import ItemNeighbors.Proofs.ScoringRuns

/-!
# Laws of runs

A build is put together from few kinds of steps. A law that holds of these and is kept by
sequences holds of the whole build.

- `Scoring.Stepwise`: a law holds of the steps and of sequences.
- `Scoring.Stepwise.buildMatrix`, `Scoring.Stepwise.assemble`: then it holds of every run and of
  every build.
- `Similarity.not_total_of_run_assemble`: a build is cut short only by a call without an answer.
- `Similarity.IsPure.stepwise`: if the similarity is a function, no result depends on the journal.
-/

namespace ItemNeighbors

namespace Scoring

/-- A law holds of the steps that a build takes with a similarity, and of sequences. The journal
is read for the sake of a note only. -/
structure Stepwise (sim : Similarity) (Law : (α : Type) → Scoring α → Prop) : Prop where
  bind : ∀ {α β : Type} {x : Scoring α} {f : α → Scoring β},
    Law α x → (∀ a, Law β (f a)) → Law β (x >>= f)
  require : ∀ {α : Type} (result : Except BuildError α), Law α (require result)
  update : ∀ f : Journal → Journal, Law Unit (modify f)
  noteOf : ∀ n : Journal → BuildNote, Law Unit (get >>= fun j => note (n j))
  ask : ∀ item other a b, Law Float (ask sim item other a b)

namespace Stepwise

variable {sim : Similarity} {Law : (α : Type) → Scoring α → Prop} {α β : Type}

theorem pure (h : Stepwise sim Law) (a : α) : Law α (pure a) :=
  h.require (.ok a)

theorem note (h : Stepwise sim Law) (n : BuildNote) : Law Unit (note n) :=
  h.update _

theorem foldlM (h : Stepwise sim Law) {f : β → α → Scoring β} (hf : ∀ b a, Law β (f b a))
    (l : List α) (b : β) : Law β (l.foldlM f b) := by
  induction l generalizing b with
  | nil => exact h.pure b
  | cons a l ih =>
    rw [List.foldlM_cons]
    exact h.bind (hf b a) fun b' => ih b'

variable {γ : Type} [ScoreAccumulator γ]

theorem put (h : Stepwise sim Law) (acc : γ) (item other : ItemId) (score : Float) :
    Law _ (put acc item other score) :=
  h.bind (h.update _) fun _ => h.require _

theorem file (h : Stepwise sim Law) (s : Strategy) (acc : γ) (item other : ItemId)
    (score : Float) : Law _ (s.file acc item other score) := by
  have hend : ∀ acc : γ, Law _ (do
      modify fun j => { j with filed := j.filed + 1 }
      return acc) := fun acc => h.bind (h.update _) fun _ => h.pure acc
  unfold Strategy.file
  refine h.bind (h.put _ _ _ _) fun acc' => ?_
  split
  · exact h.bind (h.put _ _ _ _) fun acc'' => hend acc''
  · exact h.bind (h.pure _) fun acc'' => hend acc''

theorem scorePair (h : Stepwise sim Law) (s : Strategy) (c : BuildContext) (item : ItemId)
    (vector : SparseVector) (acc : γ) (other : ItemId) :
    Law _ (s.scorePair sim c item vector acc other) :=
  h.bind (h.require _) fun _ => h.bind (h.ask _ _ _ _) fun _ => h.file _ _ _ _ _

theorem scoreItem (h : Stepwise sim Law) (s : Strategy) (c : BuildContext) (acc : γ)
    (item : ItemId) : Law _ (s.scoreItem sim c acc item) :=
  h.bind (h.require _) fun vector => h.bind (h.require _) fun others =>
    h.foldlM (h.scorePair s c item vector) others acc

/-- A law of the steps is a law of every run. -/
theorem buildMatrix (h : Stepwise sim Law) (s : Strategy) (c : BuildContext) (acc : γ) :
    Law _ (s.buildMatrix sim c acc) := by
  unfold Strategy.buildMatrix
  cases hsparse : s.isSparse with
  | true =>
    refine h.bind (h.foldlM (h.scoreItem s c) _ acc) fun acc' => ?_
    rw [if_pos rfl, ← bind_assoc]
    exact h.bind (h.noteOf fun j => .scoredCommon j.filed s.pairKind) fun _ => h.pure _
  | false =>
    exact h.bind (h.note _) fun _ =>
      h.bind (h.foldlM (h.scoreItem s c) _ acc) fun acc' => h.pure _

/-- A law of the steps is a law of every build. -/
theorem assemble (h : Stepwise sim Law) (factory : AccumulatorFactory) (snapshot : Snapshot) :
    Law _ (Builder.assemble sim factory snapshot) :=
  h.bind (h.note _) fun _ => h.bind (h.note _) fun _ => h.bind (h.require _) fun _ =>
    h.bind (h.buildMatrix _ _ _) fun _ => h.pure _

end Stepwise

end Scoring

namespace Similarity

open Scoring

variable {sim : Similarity} {factory : AccumulatorFactory} {snapshot : Snapshot} {j j' : Journal}

/-- A build is cut short only by a call that gets no answer. -/
theorem not_total_of_run_assemble
    (h : (Builder.assemble sim factory snapshot).run j = (.error .similarityFailed, j')) :
    ¬ sim.Total := by
  have hlaw : Stepwise sim fun _ x => ∀ j j',
      x.run j = (.error .similarityFailed, j') → ¬ sim.Total := {
    bind := by
      intro α β x f hx hf j j' hrun
      rcases hfirst : x.run j with ⟨result, j₁⟩
      cases result with
      | ok a =>
        rw [run_bind_ok hfirst] at hrun
        exact hf a _ _ hrun
      | error e =>
        rw [run_bind_error hfirst] at hrun
        cases hrun
        exact hx _ _ hfirst
    require := by
      rintro α (e | a) j j' hrun
      · cases hrun
      · cases hrun
    update := by
      intro f j j' hrun
      cases hrun
    noteOf := by
      intro n j j' hrun
      cases hrun
    ask := by
      intro item other a b j j' hrun htotal
      rw [run_ask htotal] at hrun
      cases hrun }
  exact hlaw.assemble factory snapshot j j' h

/-- The similarity is a function of the two vectors. -/
def IsPure (sim : Similarity) : Prop :=
  ∃ f : SparseVector → SparseVector → Float, ∀ n a b, sim.score n a b = some (f a b)

theorem isPure_ofFunction (f : SparseVector → SparseVector → Float)
    (isSparse isSymmetric : Bool) : (ofFunction f isSparse isSymmetric).IsPure :=
  ⟨f, fun _ _ _ => rfl⟩

theorem IsPure.total (h : sim.IsPure) : sim.Total := by
  obtain ⟨f, hf⟩ := h
  intro n a b
  rw [hf]
  rfl

/-- With a function, the result of a step does not depend on the journal. -/
theorem IsPure.stepwise (h : sim.IsPure) :
    Stepwise sim fun _ x => ∀ j j', (x.run j).1 = (x.run j').1 where
  bind := by
    intro α β x f hx hf j j'
    have hfirst := hx j j'
    rcases hrun : x.run j with ⟨result, j₁⟩
    rcases hrun' : x.run j' with ⟨result', j₁'⟩
    obtain rfl : result = result' := by rwa [hrun, hrun'] at hfirst
    cases result with
    | ok a =>
      rw [run_bind_ok hrun, run_bind_ok hrun']
      exact hf a j₁ j₁'
    | error e => rw [run_bind_error hrun, run_bind_error hrun']
  require := by
    rintro α (e | a) j j'
    · rfl
    · rfl
  update := fun f j j' => rfl
  noteOf := fun n j j' => rfl
  ask := by
    intro item other a b j j'
    rw [run_ask h.total, run_ask h.total]
    obtain ⟨f, hf⟩ := h
    simp only [answer, hf]

end Similarity

end ItemNeighbors
