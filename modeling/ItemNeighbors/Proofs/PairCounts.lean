import Mathlib.Algebra.BigOperators.Intervals
import ItemNeighbors.Proofs.Ranks
import ItemNeighbors.Proofs.StoppedRuns

/-!
# The number of scored pairs

A run notes down how many pairs it scores. If it scores all pairs, it takes the number from a
formula before it has scored any; otherwise it counts them and has a number at its end only.

- `Scoring.Silent`: a part of a run that writes no note, however it ends.
- `Strategy.length_pairs`: the formula counts the pairs of the run.
- `Strategy.toNat_pairCountWord`: 64 bits are enough for it.
- `Journal.Counts`: the calls of a run are of a given number.
- `Strategy.notes_count_calls`: the one note of a run tells the number of its calls.
-/

namespace ItemNeighbors

/-! ## Calls -/

/-- A run asked `n` questions, where `before` had been asked before, and filed a score `n` times,
each time in the directions of its strategy. -/
structure Journal.Counts (j : Journal) (s : Strategy) (before n : Nat) : Prop where
  asked : j.asked = before + n
  askedPairs : j.askedPairs.length = n
  filed : ∃ calls : List Put, calls.length = n ∧
    j.puts = calls.flatMap fun p => s.filings p.1 p.2.1 p.2.2

/-! ## Parts of a run that write no note -/

namespace Scoring

variable {α β : Type}

/-- A part of a run writes no note, whether it comes to its end or fails. -/
def Silent (x : Scoring α) : Prop := ∀ j, (x.run j).2.notes = j.notes

theorem Silent.bind {x : Scoring α} {f : α → Scoring β} (hx : Silent x)
    (hf : ∀ a, Silent (f a)) : Silent (x >>= f) := by
  intro j
  have hfirst := hx j
  rcases hrun : x.run j with ⟨result, j₁⟩
  rw [hrun] at hfirst
  cases result with
  | ok a =>
    rw [run_bind_ok hrun, hf a j₁]
    exact hfirst
  | error e =>
    rw [run_bind_error hrun]
    exact hfirst

theorem silent_require (result : Except BuildError α) : Silent (require result) := by
  intro j
  cases result with
  | ok a => rfl
  | error e => rfl

theorem silent_modify {f : Journal → Journal} (hf : ∀ j, (f j).notes = j.notes) :
    Silent (modify f) :=
  hf

theorem silent_foldlM {f : β → α → Scoring β} (hf : ∀ b a, Silent (f b a)) (l : List α) (b : β) :
    Silent (l.foldlM f b) := by
  induction l generalizing b with
  | nil => exact silent_require (.ok b)
  | cons a l ih =>
    rw [List.foldlM_cons]
    exact (hf b a).bind ih

theorem silent_ask (sim : Similarity) (item other : ItemId) (a b : SparseVector) :
    Silent (ask sim item other a b) := by
  intro j
  unfold ask
  rw [run_bind_ok run_get, run_bind_ok (run_modify _)]
  cases sim.score j.asked a b with
  | none => rfl
  | some score => rfl

theorem silent_put [ScoreAccumulator α] (acc : α) (item other : ItemId) (score : Float) :
    Silent (put acc item other score) := by
  unfold put
  exact Silent.bind (silent_modify fun _ => rfl) fun _ => silent_require _

end Scoring

namespace Strategy

open Scoring

variable {α : Type} [ScoreAccumulator α] {s : Strategy} {sim : Similarity} {c : BuildContext}
  {acc : α} {item other : ItemId} {j j' : Journal}

theorem silent_file (score : Float) : Silent (s.file acc item other score) := by
  have hend : ∀ acc : α, Silent (do
      modify fun j => { j with filed := j.filed + 1 }
      return acc) := fun acc =>
    Silent.bind (silent_modify fun _ => rfl) fun _ => silent_require (.ok acc)
  unfold file
  refine (silent_put acc item other score).bind fun acc' => ?_
  split
  · exact (silent_put acc' other item score).bind hend
  · exact (silent_require (.ok acc')).bind hend

/-- Nothing is noted at the turn of an item. -/
theorem silent_scoreItem : Silent (s.scoreItem sim c acc item) :=
  (silent_require _).bind fun _ => (silent_require _).bind fun others =>
    silent_foldlM (fun _ _ => (silent_require _).bind fun _ =>
      (silent_ask _ _ _ _ _).bind silent_file) others acc

/-- The note that a run makes on a number of pairs. -/
def countNote (s : Strategy) (n : Nat) : BuildNote :=
  if s.isSparse then .scoredCommon n s.pairKind else .scoringAll n s.pairKind

/-- A run that does not come to its end has noted the number of pairs if it knew it beforehand. -/
theorem notes_of_run_eq_error {e : BuildFailure}
    (h : (s.buildMatrix sim c acc).run j = (.error e, j')) :
    j'.notes = if s.isSparse then j.notes
      else j.notes.push (s.countNote (s.pairCount c.items.size)) := by
  have hturns : ∀ {j}, (c.items.toList.foldlM (s.scoreItem sim c) acc).run j = (.error e, j') →
      j'.notes = j.notes := by
    intro j hrun
    have hsilent : Silent (c.items.toList.foldlM (s.scoreItem sim c) acc) :=
      silent_foldlM (fun _ _ => silent_scoreItem) _ _
    have hnotes := hsilent j
    rwa [hrun] at hnotes
  unfold buildMatrix at h
  cases hsparse : s.isSparse with
  | true =>
    -- behind the last turn nothing can fail
    simp only [hsparse, Bool.not_true, Bool.false_eq_true, if_false, if_true] at h
    rcases run_bind_eq_error_iff.mp h with h | ⟨acc', j₁, -, h⟩
    · exact hturns h
    · cases h
  | false =>
    simp only [hsparse, Bool.not_false, if_true, Bool.false_eq_true, if_false] at h
    rw [run_bind_ok (run_note _)] at h
    rcases run_bind_eq_error_iff.mp h with h | ⟨acc', j₁, -, h⟩
    · rw [hturns h]
      simp [countNote, hsparse]
    · cases h

/-! ## The number of all pairs -/

/-- How many partners each item has if all pairs are scored. -/
theorem length_pairs_eq_sum (hs : s.isSparse = false) :
    (s.pairs c).length = (c.items.toList.map fun x => c.items.toList.countP (s.admits x)).sum := by
  rw [pairs, List.length_flatMap]
  refine congrArg List.sum (List.map_congr_left fun x _ => ?_)
  rw [List.length_map, partnersOf, partners_eq_of_not_isSparse hs, List.countP_eq_length_filter]

/-- Among distinct items every one differs from all others. -/
theorem countP_ne_of_nodup {l : List ItemId} (h : l.Nodup) {x : ItemId} (hx : x ∈ l) :
    l.countP (· != x) = l.length - 1 := by
  have hcount : l.countP (· == x) = 1 := List.count_eq_one_of_mem h hx
  have hsplit := List.length_eq_countP_add_countP (· == x) (l := l)
  have hne : l.countP (fun y => !(y == x)) = l.countP (· != x) := rfl
  simp only [Bool.not_eq_true, Bool.decide_eq_false] at hsplit
  omega

/-- **The formula counts the pairs of a run that scores all pairs.** -/
theorem length_pairs (hs : s.isSparse = false) :
    (s.pairs c).length = s.pairCount c.items.size := by
  have hsize : c.items.toList.length = c.items.size := Array.length_toList
  rw [length_pairs_eq_sum hs, ← hsize, pairCount]
  cases hsym : s.isSymmetric with
  | true =>
    -- at the turn of an item the smaller ones are its partners
    have hadmits : ∀ x, s.admits x = fun y => decide (y < x) := by
      intro x
      funext y
      simp [admits, hsym]
    simp only [hadmits, if_true]
    rw [ItemSet.map_countP_lt (ItemSet.toList_pairwise _), ← Finset.sum_range_id,
      ← List.toFinset_range, List.sum_toFinset _ List.nodup_range, List.map_id']
  | false =>
    have hadmits : ∀ x, s.admits x = fun y => y != x := by
      intro x
      funext y
      simp [admits, hsym]
    simp only [hadmits, Bool.false_eq_true, if_false]
    rw [List.map_congr_left fun x hx => countP_ne_of_nodup (ItemSet.nodup_toList _) hx,
      List.map_const', List.sum_replicate_nat]

/-! ## Numbers of 64 bits -/

/-- The formula in arithmetic of 64 bits, where a product that does not fit in wraps around. -/
def pairCountWord (s : Strategy) (n : UInt64) : UInt64 :=
  let others := if n = 0 then 0 else n - 1
  if s.isSymmetric then n * others / 2 else n * others

theorem mul_pred_lt {n : Nat} (h : n < 2 ^ 32) : n * (n - 1) < UInt64.size :=
  calc n * (n - 1) ≤ n * n := Nat.mul_le_mul_left n (Nat.sub_le n 1)
    _ < 2 ^ 32 * 2 ^ 32 := Nat.mul_lt_mul'' h h
    _ = UInt64.size := rfl

/-- For fewer than `2 ^ 32` items nothing wraps around. -/
theorem toNat_pairCountWord {n : Nat} (h : n < 2 ^ 32) :
    (s.pairCountWord (.ofNat n)).toNat = s.pairCount n := by
  have hn : (UInt64.ofNat n).toNat = n := UInt64.toNat_ofNat_of_lt' (h.trans (by decide))
  have hothers : (if UInt64.ofNat n = 0 then (0 : UInt64) else .ofNat n - 1).toNat = n - 1 := by
    split
    · rename_i hzero
      have : n = 0 := by rw [← hn, hzero]; rfl
      simp [this]
    · rename_i hpos
      have : n ≠ 0 := by
        rintro rfl
        exact hpos rfl
      have hle : (1 : UInt64) ≤ .ofNat n := UInt64.le_iff_toNat_le.mpr (by rw [hn]; simp; omega)
      rw [UInt64.toNat_sub_of_le _ _ hle, hn]
      rfl
  have hmul : (UInt64.ofNat n * if UInt64.ofNat n = 0 then 0 else .ofNat n - 1).toNat =
      n * (n - 1) := by
    rw [UInt64.toNat_mul, hn, hothers]
    exact Nat.mod_eq_of_lt (mul_pred_lt h)
  unfold pairCountWord pairCount
  cases s.isSymmetric with
  | true =>
    simp only [if_true]
    rw [UInt64.toNat_div, hmul]
    rfl
  | false => simpa using hmul

/-! ## What a run notes -/

/-- Some pairs lead to as many calls that file a score. -/
theorem exists_calls_putsFrom (s : Strategy) (sim : Similarity) (c : BuildContext) (n : Nat)
    (pairs : List (ItemId × ItemId)) :
    ∃ calls : List Put, calls.length = pairs.length ∧
      s.putsFrom sim c n pairs = calls.flatMap fun p => s.filings p.1 p.2.1 p.2.2 := by
  induction pairs generalizing n with
  | nil => exact ⟨[], rfl, rfl⟩
  | cons pair pairs ih =>
    obtain ⟨item, other⟩ := pair
    obtain ⟨calls, hlength, hputs⟩ := ih (n + 1)
    refine ⟨(item, other, sim.answer n (c.vectorOf item) (c.vectorOf other)) :: calls, ?_, ?_⟩
    · rw [List.length_cons, List.length_cons, hlength]
    · rw [putsFrom, hputs, List.flatMap_cons]

variable {m : SimilarityMatrix} {asked : Nat}

/-- The calls of a finished run are as many as its pairs. -/
theorem counts_of_run (h : (s.buildMatrix sim c acc).run (.start asked) = (.ok m, j')) :
    j'.Counts s asked (s.pairs c).length := by
  obtain ⟨calls, hlength, hputs⟩ := exists_calls_putsFrom s sim c asked (s.pairs c)
  constructor
  · rw [asked_of_run h, askedPairs_of_run h]
  · rw [askedPairs_of_run h]
  · exact ⟨calls, hlength, (puts_of_run h).trans hputs⟩

/-- The one note of a finished run tells the number of its pairs. -/
theorem notes_of_run (h : (s.buildMatrix sim c acc).run (.start asked) = (.ok m, j')) :
    j'.notes = #[s.countNote (s.pairs c).length] := by
  obtain ⟨-, -, rfl⟩ := run_buildMatrix_eq_ok_iff.mp h
  cases hsparse : s.isSparse with
  | true => simp [journalAfter, countNote, hsparse, Journal.start]
  | false => simp [journalAfter, countNote, hsparse, Journal.start, length_pairs hsparse]

/-- **The note of a run tells the truth.** At the end of a run there is one, and its number is that
of the questions to the similarity and of the calls that filed a score. A strategy that scores all
pairs has the number from a formula, which 64 bits can evaluate, and has noted it even if the run
fails. The others note nothing then. -/
theorem notes_count_calls (s : Strategy) {c : BuildContext} (hitems : c.items.size < 2 ^ 32)
    (sim : Similarity) (factory : AccumulatorFactory α) (asked : Nat) :
    ∃ result j, (s.buildMatrix sim c (factory c.items)).run (.start asked) = (result, j) ∧
      (∀ m, result = .ok m → ∃ n, j.notes = #[s.countNote n] ∧ j.Counts s asked n ∧
        (s.isSparse = false → n = s.pairCount c.items.size)) ∧
      (∀ e, result = .error e → j.notes =
        if s.isSparse then #[] else #[s.countNote (s.pairCount c.items.size)]) ∧
      c.items.size * (c.items.size - 1) < UInt64.size ∧
      (s.pairCountWord (.ofNat c.items.size)).toNat = s.pairCount c.items.size := by
  rcases hrun : (s.buildMatrix sim c (factory c.items)).run (.start asked) with ⟨result, j⟩
  refine ⟨result, j, rfl, ?_, ?_, mul_pred_lt hitems, toNat_pairCountWord hitems⟩
  · rintro m rfl
    exact ⟨_, notes_of_run hrun, counts_of_run hrun, length_pairs⟩
  · rintro e rfl
    exact notes_of_run_eq_error hrun

/-- Three items make three pairs, if each one is scored once. -/
theorem notes_count_calls_of_three_items :
    let c : BuildContext :=
      { items := ⟨#[1, 2, 3], by decide⟩
        itemVectors := (((∅ : Std.HashMap ItemId SparseVector).insert 1 ∅).insert 2
          (.ofPairs [(7, 4.0)])).insert 3 (.ofPairs [(7, 2.0), (8, 5.0)])
        userItems := none }
    ∃ m j, (symmetric.buildMatrix (.pearson 0.0) c (Truncation.factory ⟨1, 0.0⟩ c.items)).run
        (.start 5) = (.ok m, j) ∧
      j.notes = #[.scoringAll 3 .unordered] ∧ j.Counts symmetric 5 3 := by
  intro c
  have hvector : ∀ item ∈ c.items.toList, (c.itemVector? item).isSome = true := by
    intro item hitem
    obtain rfl | rfl | rfl : item = 1 ∨ item = 2 ∨ item = 3 := by
      simpa [c, ItemSet.toList] using hitem
    · simp [c, BuildContext.itemVector?]
    · simp [c, BuildContext.itemVector?]
    · simp [c, BuildContext.itemVector?]
  have hcomplete : symmetric.Complete c c.items := {
    vector := hvector
    otherVector := fun _ _ hdue => hvector _ hdue.2.1
    mem := fun _ _ hdue => ⟨hdue.1, hdue.2.1⟩ }
  have hscorable : symmetric.Scorable c (Truncation.factory ⟨1, 0.0⟩ c.items).items :=
    hcomplete.scorable (by simp [isSparse])
  obtain ⟨m, hrun⟩ := exists_run_buildMatrix (j := .start 5)
    (Similarity.total_ofFunction (Similarity.pearsonScore 0.0) false true) hscorable
  obtain ⟨result, j, hrun', hok, -⟩ := notes_count_calls symmetric (c := c) (by decide)
    (.pearson 0.0) (Truncation.factory ⟨1, 0.0⟩) 5
  obtain ⟨n, hnotes, hcounts, hn⟩ := hok m (congrArg Prod.fst (hrun'.symm.trans hrun))
  obtain rfl : n = 3 := (hn rfl).trans (by decide)
  obtain rfl : result = .ok m := congrArg Prod.fst (hrun'.symm.trans hrun)
  exact ⟨m, j, hrun', hnotes, hcounts⟩

end Strategy

end ItemNeighbors
