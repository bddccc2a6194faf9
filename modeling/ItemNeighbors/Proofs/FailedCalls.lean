import ItemNeighbors.Proofs.AccumulatorCalls

/-!
# Failed calls

A call of an accumulator fails exactly if one of its items is outside of the universe. Both
directions of a score are checked by the same two memberships, so a call in both directions fails
at its first put or not at all, and what failed has left no trace.

- `AccumulatorCall.run`: what a call returns.
- `AccumulatorCall.run_eq_error_iff`: when it fails, and what the error says.
- `NeighborAccumulator.failed_calls_leave_no_trace`: an accumulator after a failed call.
-/

namespace ItemNeighbors

namespace AccumulatorCall

/-- The item whose row a call names first. -/
def item : AccumulatorCall → ItemId
  | .put item _ _ => item
  | .putSymmetric item _ _ => item

/-- The other item of a call. -/
def other : AccumulatorCall → ItemId
  | .put _ other _ => other
  | .putSymmetric _ other _ => other

/-- What a call returns: the accumulator after it, or why it fails. -/
def run (acc : NeighborAccumulator) : AccumulatorCall → Except BuildError NeighborAccumulator
  | .put item other score => acc.put item other score
  | .putSymmetric item other score => acc.putSymmetric item other score

open NeighborAccumulator

variable {acc acc' : NeighborAccumulator} {c : AccumulatorCall} {e : BuildError}

/-- When a call fails, and what the error says: whatever the score is and the rows hold, it names
an item outside of the universe, the first one if both are. -/
theorem run_eq_error_iff :
    c.run acc = .error e ↔
      ¬ (c.item ∈ acc.items.toList ∧ c.other ∈ acc.items.toList) ∧
        e = .itemOutsideUniverse (if c.item ∈ acc.items.toList then c.other else c.item) := by
  cases c with
  | put item other score => exact put_eq_error_iff
  | putSymmetric item other score => exact putSymmetric_eq_error_iff

/-- So the puts of a call are none exactly if it fails. -/
theorem puts_eq_nil_iff : c.puts acc.items = [] ↔ ∃ e, c.run acc = .error e := by
  simp only [run_eq_error_iff, exists_and_left, exists_eq, and_true]
  cases c with
  | put item other score => simp [puts, AccumulatorCall.item, AccumulatorCall.other]
  | putSymmetric item other score => simp [puts, AccumulatorCall.item, AccumulatorCall.other]

/-- A call that succeeds leaves the accumulator that it returns. -/
theorem call_eq_of_run_eq_ok (h : c.run acc = .ok acc') : acc.call c = acc' := by
  cases c with
  | put item other score => exact congrArg Prod.fst (put_eq_ok_iff.mp h)
  | putSymmetric item other score => exact congrArg Prod.fst (putSymmetric_eq_ok_iff.mp h)

/-- A call that fails leaves the accumulator as it was. -/
theorem call_eq_of_run_eq_error (h : c.run acc = .error e) : acc.call c = acc := by
  have hmem := (run_eq_error_iff.mp h).1
  cases c with
  | put item other score => exact congrArg Prod.fst (attempt_of_not_mem hmem score)
  | putSymmetric item other score =>
    exact congrArg Prod.fst (attemptSymmetric_of_not_mem hmem score)

end AccumulatorCall

namespace NeighborAccumulator

/-- **A failed call leaves no trace**, whatever was called before. A call fails exactly if one of
its items is outside of the universe and says which; the accumulator is what it was, so all later
calls lead to the same matrix as without the failed one. A call that succeeds leaves what it
returns, and a score that was filed in one direction is accepted in the other. -/
theorem failed_calls_leave_no_trace (t : Truncation) (items : ItemSet)
    (calls : List AccumulatorCall) (c : AccumulatorCall) :
    let acc := calls.foldl call (create t items)
    ((∃ e, c.run acc = .error e) ↔ c.item ∉ items.toList ∨ c.other ∉ items.toList) ∧
      (∀ e, c.run acc = .error e →
        e = .itemOutsideUniverse (if c.item ∉ items.toList then c.item else c.other) ∧
          acc.call c = acc ∧
            ∀ later, ((calls ++ c :: later).foldl call (create t items)).toMatrix =
              ((calls ++ later).foldl call (create t items)).toMatrix) ∧
      (∀ acc', c.run acc = .ok acc' → acc.call c = acc') ∧
      ∀ item other score half, acc.put item other score = .ok half →
        ∃ acc', half.put other item score = .ok acc' := by
  intro acc
  have hitems : acc.items = items := congrArg NeighborAccumulator.items (foldl_call_create calls)
  refine ⟨?_, fun e he => ⟨?_, ?_, fun later => ?_⟩, fun acc' => ?_, fun _ _ _ _ => ?_⟩
  · simp only [AccumulatorCall.run_eq_error_iff, hitems, exists_and_left, exists_eq, and_true,
      not_and_or]
  · have hcause := (AccumulatorCall.run_eq_error_iff.mp he).2
    rw [hcause, hitems, ite_not]
  · exact AccumulatorCall.call_eq_of_run_eq_error he
  · -- the later calls start from the same accumulator
    rw [List.foldl_append, List.foldl_cons, List.foldl_append]
    exact congrArg (fun acc => (later.foldl call acc).toMatrix)
      (AccumulatorCall.call_eq_of_run_eq_error he)
  · exact AccumulatorCall.call_eq_of_run_eq_ok
  · exact exists_put_swap_eq_ok

/-- Of a score for an item outside of the universe no direction is filed, although the row of the
member is full and the score is higher than what it holds. -/
theorem failed_calls_leave_no_trace_of_stranger :
    let acc := [AccumulatorCall.put 1 2 0.5].foldl call (create ⟨1, 0.0⟩ (.ofList [1, 2]))
    acc.putSymmetric 1 9 0.75 = .error (.itemOutsideUniverse 9) ∧
      acc.call (.putSymmetric 1 9 0.75) = acc := by
  intro acc
  have h := failed_calls_leave_no_trace ⟨1, 0.0⟩ (.ofList [1, 2]) [.put 1 2 0.5]
    (.putSymmetric 1 9 0.75)
  have hstranger : (9 : ItemId) ∉ (ItemSet.ofList [1, 2]).toList := by simp
  obtain ⟨e, he⟩ := h.1.mpr (.inr hstranger)
  obtain ⟨hcause, hsame, -⟩ := h.2.1 e he
  have hother : e = .itemOutsideUniverse 9 := by
    simpa [AccumulatorCall.item, AccumulatorCall.other] using hcause
  exact ⟨hother ▸ he, hsame⟩

end NeighborAccumulator

end ItemNeighbors
