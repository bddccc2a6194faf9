import ItemNeighbors.Neighbor.Heap
import ItemNeighbors.Proofs.ScoreOrder

/-!
# Heaps of neighbors are ordered

No element of a heap has a lower score than its parent, so the root has the lowest. Each sift
repairs the one place at which an operation breaks that order.

- `NeighborHeap.OrderedBelow`: the heap order on the positions below a bound.
- `NeighborHeap.siftUp_ordered`, `NeighborHeap.siftDown_ordered`: the two repairs.
- `NeighborHeap.push_ordered`, `NeighborHeap.replaceRoot_ordered`: the operations keep the order.
- `NeighborHeap.drain_pairwise`: draining a heap sorts it by descending score.
- `NeighborHeap.push_perm`, `NeighborHeap.replaceRoot_perm`, `NeighborHeap.drain_perm`: nothing is
  lost or made up on the way.
-/

namespace ItemNeighbors

namespace NeighborHeap

open Score (Rank rank)

/-- The rank of the score at a position; positions behind the end do not matter. -/
def rankAt (heap : Array Neighbor) (i : Nat) : Rank :=
  (heap[i]?.map fun n => rank n.score).getD (toLex (0, toLex (0, 0)))

theorem rankAt_eq {heap : Array Neighbor} {i : Nat} (hi : i < heap.size) :
    rankAt heap i = rank heap[i].score := by
  simp [rankAt, hi]

theorem rankAt_swap {heap : Array Neighbor} {i j : Nat} (hi : i < heap.size) (hj : j < heap.size)
    (k : Nat) :
    rankAt (heap.swap i j) k =
      if k = j then rankAt heap i else if k = i then rankAt heap j else rankAt heap k := by
  rw [rankAt, Array.getElem?_swap, rankAt_eq hi, rankAt_eq hj]
  by_cases hkj : k = j
  · simp [hkj]
  · by_cases hki : k = i
    · subst hki
      rw [if_neg (Ne.symm hkj), if_pos rfl, if_neg hkj, if_pos rfl]
      rfl
    · simp [hkj, hki, Ne.symm hkj, Ne.symm hki, rankAt]

@[simp] theorem rankAt_swap_left {heap : Array Neighbor} {i j : Nat} {hi : i < heap.size}
    {hj : j < heap.size} : rankAt (heap.swap i j) i = rankAt heap j := by
  rw [rankAt_swap hi hj]
  by_cases h : i = j <;> simp [h]

@[simp] theorem rankAt_swap_right {heap : Array Neighbor} {i j : Nat} {hi : i < heap.size}
    {hj : j < heap.size} : rankAt (heap.swap i j) j = rankAt heap i := by
  rw [rankAt_swap hi hj, if_pos rfl]

theorem rankAt_swap_of_ne {heap : Array Neighbor} {i j k : Nat} (hi : i < heap.size)
    (hj : j < heap.size) (hki : k ≠ i) (hkj : k ≠ j) :
    rankAt (heap.swap i j) k = rankAt heap k := by
  rw [rankAt_swap hi hj, if_neg hkj, if_neg hki]

/-- All scores are numbers. -/
def Numbers (heap : Array Neighbor) : Prop :=
  ∀ n ∈ heap, n.score.isNaN = false

theorem Numbers.perm {heap heap' : Array Neighbor} (h : Numbers heap) (hp : heap'.Perm heap) :
    Numbers heap' :=
  fun n hn => h n (hp.mem_iff.mp hn)

/-- Among numbers, outranking compares the ranks at two positions. -/
theorem outranks_iff_rankAt {heap : Array Neighbor} (hnum : Numbers heap) {i j : Nat}
    (hi : i < heap.size) (hj : j < heap.size) :
    heap[i].outranks heap[j] = true ↔ rankAt heap j < rankAt heap i := by
  rw [rankAt_eq hi, rankAt_eq hj]
  exact Neighbor.outranks_iff (hnum _ (Array.getElem_mem hi)) (hnum _ (Array.getElem_mem hj))

/-! ## Heap order -/

/-- The position above another one; that of the root does not matter. -/
def parent (i : Nat) : Nat := (i - 1) / 2

theorem parent_lt {i : Nat} (h : 0 < i) : parent i < i := by
  unfold parent
  omega

/-- No element below `stop` has a lower score than its parent. -/
def OrderedBelow (heap : Array Neighbor) (stop : Nat) : Prop :=
  ∀ i, 0 < i → i < stop → rankAt heap (parent i) ≤ rankAt heap i

/-- The root has the lowest score. -/
theorem OrderedBelow.root_le {heap : Array Neighbor} {stop : Nat} (h : OrderedBelow heap stop)
    {i : Nat} (hi : i < stop) : rankAt heap 0 ≤ rankAt heap i := by
  induction i using Nat.strong_induction_on with
  | _ i ih =>
    rcases Nat.eq_zero_or_pos i with rfl | hpos
    · exact le_refl _
    · have hlt := parent_lt hpos
      exact (ih (parent i) hlt (by omega)).trans (h i hpos hi)

/-- The children of a position are not below its parent, so the two can do without it. -/
def Bridged (heap : Array Neighbor) (stop hole : Nat) : Prop :=
  0 < hole → ∀ c, 0 < c → c < stop → parent c = hole → rankAt heap (parent hole) ≤ rankAt heap c

/-- Heap order but for one element that may have to rise. -/
structure UpOrder (heap : Array Neighbor) (hole : Nat) : Prop where
  except : ∀ i, 0 < i → i < heap.size → i ≠ hole → rankAt heap (parent i) ≤ rankAt heap i
  bridged : Bridged heap heap.size hole

/-- Heap order but for one element that may have to sink. -/
structure DownOrder (heap : Array Neighbor) (stop hole : Nat) : Prop where
  except : ∀ i, 0 < i → i < stop → parent i ≠ hole → rankAt heap (parent i) ≤ rankAt heap i
  bridged : Bridged heap stop hole

/-! ## Rising -/

theorem siftUp_perm {heap : Array Neighbor} {i : Nat} {hi : i < heap.size} :
    (siftUp heap i hi).Perm heap := by
  fun_induction siftUp heap i hi with
  | case1 => exact .rfl
  | case2 heap i hi h p hp hout ih => exact ih.trans (Array.swap_perm _ _)
  | case3 => exact .rfl

/-- The fault moves to the parent. -/
theorem UpOrder.move {heap : Array Neighbor} {i : Nat} (o : UpOrder heap i) (hpos : 0 < i)
    (hi : i < heap.size) (hlt : rankAt heap i < rankAt heap (parent i)) :
    UpOrder (heap.swap i (parent i) hi ((parent_lt hpos).trans hi)) (parent i) := by
  have hp := parent_lt hpos
  have hps : parent i < heap.size := hp.trans hi
  constructor
  · intro k hk hks hkp
    rw [Array.size_swap] at hks
    by_cases hki : k = i
    · subst hki
      simpa using hlt.le
    · rw [rankAt_swap_of_ne hi hps hki hkp]
      by_cases hpk : parent k = i
      · -- a child of the old place meets the old parent
        rw [hpk, rankAt_swap_left]
        exact o.bridged hpos k hk hks hpk
      · by_cases hpp : parent k = parent i
        · rw [hpp, rankAt_swap_right]
          exact hlt.le.trans (hpp ▸ o.except k hk hks hki)
        · rw [rankAt_swap_of_ne hi hps hpk hpp]
          exact o.except k hk hks hki
  · intro hpp c hc hcs hcp
    rw [Array.size_swap] at hcs
    have hgrand : rankAt heap (parent (parent i)) ≤ rankAt heap (parent i) :=
      o.except (parent i) hpp hps hp.ne
    have hfar := parent_lt hpp
    rw [rankAt_swap_of_ne hi hps (by omega) (by omega)]
    by_cases hci : c = i
    · rw [hci, rankAt_swap_left]
      exact hgrand
    · have hcpar : c ≠ parent i := by
        have := parent_lt hc
        omega
      rw [rankAt_swap_of_ne hi hps hci hcpar]
      exact hgrand.trans (hcp ▸ o.except c hc hcs hci)

/-- An element that rises until its parent is not above it ends in a heap. -/
theorem siftUp_ordered {heap : Array Neighbor} {i : Nat} {hi : i < heap.size}
    (hnum : Numbers heap) (o : UpOrder heap i) :
    OrderedBelow (siftUp heap i hi) heap.size := by
  fun_induction siftUp heap i hi with
  | case1 heap hi => exact fun k hk hks => o.except k hk hks (by omega)
  | case2 heap i hi h p hp hout ih =>
    have hlt := (outranks_iff_rankAt hnum (hp.trans hi) hi).mp hout
    have := ih (hnum.perm (Array.swap_perm _ _)) (o.move (by omega) hi hlt)
    rwa [Array.size_swap] at this
  | case3 heap i hi h p hp hout =>
    intro k hk hks
    by_cases hki : k = i
    · subst hki
      exact not_lt.mp fun hlt => hout ((outranks_iff_rankAt hnum (hp.trans hi) hi).mpr hlt)
    · exact o.except k hk hks hki

theorem push_perm {heap : Array Neighbor} {x : Neighbor} :
    (push heap x).Perm (heap.push x) := siftUp_perm

/-- A push keeps the heap order. -/
theorem push_ordered {heap : Array Neighbor} {x : Neighbor} (hnum : Numbers (heap.push x))
    (h : OrderedBelow heap heap.size) :
    OrderedBelow (push heap x) (push heap x).size := by
  have hold : ∀ k, k < heap.size → rankAt (heap.push x) k = rankAt heap k := by
    intro k hk
    rw [rankAt_eq hk, rankAt_eq (by simp; omega), Array.getElem_push_lt hk]
  have hup : UpOrder (heap.push x) heap.size := by
    constructor
    · intro i hi his hne
      rw [Array.size_push] at his
      have := parent_lt hi
      rw [hold i (by omega), hold (parent i) (by omega)]
      exact h i hi (by omega)
    · -- the last position has no child
      intro _ c hc hcs hcp
      have := parent_lt hc
      rw [Array.size_push] at hcs
      omega
  have hsift : OrderedBelow (push heap x) (heap.push x).size := siftUp_ordered hnum hup
  rwa [show (push heap x).size = (heap.push x).size from size_siftUp]

/-! ## Sinking -/

theorem siftDown_perm {heap : Array Neighbor} {stop i : Nat} {hstop : stop ≤ heap.size} :
    (siftDown heap stop i hstop).Perm heap := by
  fun_induction siftDown heap stop i hstop with
  | case1 heap i hstop h child hchild hout ih => exact ih.trans (Array.swap_perm _ _)
  | case2 => exact .rfl
  | case3 => exact .rfl

/-- Nothing from `stop` on is touched. -/
theorem rankAt_siftDown_of_le {heap : Array Neighbor} {stop i : Nat} {hstop : stop ≤ heap.size}
    {k : Nat} (hk : stop ≤ k) : rankAt (siftDown heap stop i hstop) k = rankAt heap k := by
  fun_induction siftDown heap stop i hstop with
  | case1 heap i hstop h child hchild hout ih =>
    rw [ih, rankAt_swap_of_ne (by omega) (by omega) (by omega) (by omega)]
  | case2 => rfl
  | case3 => rfl

/-- What bounds all ranks below `stop` still bounds them after a sift. -/
theorem le_rankAt_siftDown {heap : Array Neighbor} {stop i : Nat} {hstop : stop ≤ heap.size}
    {r : Rank} (h : ∀ k < stop, r ≤ rankAt heap k) :
    ∀ k < stop, r ≤ rankAt (siftDown heap stop i hstop) k := by
  fun_induction siftDown heap stop i hstop with
  | case1 heap i hstop _ child hchild hout ih =>
    apply ih
    intro k hk
    rw [rankAt_swap (by omega) (by omega)]
    split_ifs
    · exact h i (by omega)
    · exact h child hchild.2
    · exact h k hk
  | case2 => exact h
  | case3 => exact h

theorem parent_weakerChild {heap : Array Neighbor} {stop i : Nat} {hstop : stop ≤ heap.size}
    {hi : 2 * i + 1 < stop} : parent (weakerChild heap stop i hstop hi) = i := by
  unfold weakerChild parent
  split
  · split <;> omega
  · omega

/-- No child has a lower score than the weaker child. -/
theorem rankAt_weakerChild_le {heap : Array Neighbor} {stop i : Nat} {hstop : stop ≤ heap.size}
    {hi : 2 * i + 1 < stop} (hnum : Numbers heap) {c : Nat} (hc : 0 < c) (hcs : c < stop)
    (hcp : parent c = i) :
    rankAt heap (weakerChild heap stop i hstop hi) ≤ rankAt heap c := by
  have hchild : c = 2 * i + 1 ∨ c = 2 * i + 2 := by
    unfold parent at hcp
    omega
  unfold weakerChild
  split
  · rename_i hright
    have hout := outranks_iff_rankAt hnum (i := 2 * i + 2) (j := 2 * i + 1) (by omega) (by omega)
    split
    · rename_i hlt
      rcases hchild with rfl | rfl
      · exact le_refl _
      · exact (hout.mp hlt).le
    · rename_i hnlt
      rcases hchild with rfl | rfl
      · exact not_lt.mp fun hlt => hnlt (hout.mpr hlt)
      · exact le_refl _
  · obtain rfl : c = 2 * i + 1 := by omega
    exact le_refl _

/-- The fault moves to the weaker child. -/
theorem DownOrder.move {heap : Array Neighbor} {stop i child : Nat} (o : DownOrder heap stop i)
    (hstop : stop ≤ heap.size) (hic : i < child) (hcs : child < stop) (hcp : parent child = i)
    (hmin : ∀ c, 0 < c → c < stop → parent c = i → rankAt heap child ≤ rankAt heap c)
    (hlt : rankAt heap child < rankAt heap i) :
    DownOrder (heap.swap i child (by omega) (by omega)) stop child := by
  have hi : i < heap.size := by omega
  have hc : child < heap.size := by omega
  constructor
  · intro k hk hks hkp
    have hpk := parent_lt hk
    by_cases hkc : k = child
    · rw [hkc, hcp, rankAt_swap_left, rankAt_swap_right]
      exact hlt.le
    · by_cases hki : k = i
      · -- the child that comes up meets the parent of the old place
        rw [hki, rankAt_swap_left, rankAt_swap_of_ne hi hc (hki ▸ hpk.ne) (hki ▸ hkp)]
        exact o.bridged (hki ▸ hk) child (by omega) hcs hcp
      · rw [rankAt_swap_of_ne hi hc hki hkc]
        by_cases hpi : parent k = i
        · rw [hpi, rankAt_swap_left]
          exact hmin k hk hks hpi
        · rw [rankAt_swap_of_ne hi hc hpi hkp]
          exact o.except k hk hks hpi
  · intro _ c hcpos hcstop hcpar
    have hcc := parent_lt hcpos
    rw [hcp, rankAt_swap_left, rankAt_swap_of_ne hi hc (by omega) (by omega), ← hcpar]
    exact o.except c hcpos hcstop (by omega)

/-- An element that sinks until no child is below it ends in a heap. -/
theorem siftDown_ordered {heap : Array Neighbor} {stop i : Nat} {hstop : stop ≤ heap.size}
    (hnum : Numbers heap) (o : DownOrder heap stop i) :
    OrderedBelow (siftDown heap stop i hstop) stop := by
  fun_induction siftDown heap stop i hstop with
  | case1 heap i hstop h child hchild hout ih =>
    have hlt := (outranks_iff_rankAt hnum (by omega) (by omega)).mp hout
    have hmove := o.move hstop hchild.1 hchild.2 parent_weakerChild
      (fun c hc hcs hcp => rankAt_weakerChild_le hnum hc hcs hcp) hlt
    exact ih (hnum.perm (Array.swap_perm _ _)) hmove
  | case2 heap i hstop h child hchild hout =>
    intro k hk hks
    by_cases hkp : parent k = i
    · have hle : rankAt heap i ≤ rankAt heap child := not_lt.mp fun hlt =>
        hout ((outranks_iff_rankAt hnum (by omega) (by omega)).mpr hlt)
      exact hkp ▸ hle.trans (rankAt_weakerChild_le hnum hk hks hkp)
    · exact o.except k hk hks hkp
  | case3 heap i hstop h =>
    intro k hk hks
    refine o.except k hk hks fun hkp => h ?_
    unfold parent at hkp
    omega

theorem replaceRoot_perm {heap : Array Neighbor} {x : Neighbor} {h : 0 < heap.size} :
    (replaceRoot heap x h).Perm (heap.set 0 x) := siftDown_perm

@[simp] theorem size_replaceRoot {heap : Array Neighbor} {x : Neighbor} {h : 0 < heap.size} :
    (replaceRoot heap x h).size = heap.size := by
  rw [replaceRoot, size_siftDown, Array.size_set]

/-- Only the root and its children can break the order when the root changes. -/
theorem DownOrder.of_root {heap heap' : Array Neighbor} {stop stop' : Nat}
    (h : OrderedBelow heap stop) (hle : stop' ≤ stop)
    (heq : ∀ k, 0 < k → k < stop' → rankAt heap' k = rankAt heap k) :
    DownOrder heap' stop' 0 := by
  constructor
  · intro k hk hks hkp
    have := parent_lt hk
    rw [heq k hk hks, heq (parent k) (by omega) (by omega)]
    exact h k hk (by omega)
  · exact fun h0 => absurd h0 (Nat.lt_irrefl 0)

/-- Replacing the root keeps the heap order. -/
theorem replaceRoot_ordered {heap : Array Neighbor} {x : Neighbor} {hpos : 0 < heap.size}
    (hnum : Numbers (heap.set 0 x)) (h : OrderedBelow heap heap.size) :
    OrderedBelow (replaceRoot heap x hpos) (replaceRoot heap x hpos).size := by
  rw [size_replaceRoot]
  refine siftDown_ordered hnum (DownOrder.of_root h (le_refl _) fun k hk hks => ?_)
  rw [rankAt_eq hks, rankAt_eq (by simpa using hks), Array.getElem_set_ne _ _ (by omega)]

/-! ## Draining -/

/-- Half-way through: what lies below `stop` is a heap, what lies from there on is in descending
order and not above the heap. -/
structure Drained (heap : Array Neighbor) (stop : Nat) : Prop where
  ordered : OrderedBelow heap stop
  above : ∀ i j, i < stop → stop ≤ j → j < heap.size → rankAt heap j ≤ rankAt heap i
  descending : ∀ i j, stop ≤ i → i < j → j < heap.size → rankAt heap j ≤ rankAt heap i

theorem Drained.step {heap : Array Neighbor} {n : Nat} {h0 : 0 < heap.size}
    {hn : n + 1 < heap.size} {hle : n + 1 ≤ (heap.swap 0 (n + 1) h0 hn).size}
    (hnum : Numbers heap) (d : Drained heap (n + 2)) :
    Drained (siftDown (heap.swap 0 (n + 1) h0 hn) (n + 1) 0 hle) (n + 1) := by
  have hroot : ∀ k < n + 1, rankAt heap 0 ≤ rankAt (heap.swap 0 (n + 1)) k := by
    intro k hk
    rw [rankAt_swap h0 hn]
    split_ifs
    · exact le_refl _
    · exact d.ordered.root_le (by omega)
    · exact d.ordered.root_le (by omega)
  -- from `n + 1` on stands the old root, then what stood there before
  have hlast : ∀ j, n + 1 < j → rankAt (heap.swap 0 (n + 1)) j = rankAt heap j := by
    intro j hj
    exact rankAt_swap_of_ne h0 hn (by omega) (by omega)
  constructor
  · refine siftDown_ordered (hnum.perm (Array.swap_perm _ _))
      (DownOrder.of_root d.ordered (by omega) fun k hk hks => ?_)
    exact rankAt_swap_of_ne h0 hn (by omega) (by omega)
  · intro i j hi hj hjs
    rw [size_siftDown, Array.size_swap] at hjs
    rw [rankAt_siftDown_of_le hj]
    refine le_rankAt_siftDown (fun k hk => ?_) i hi
    rcases Nat.eq_or_lt_of_le hj with rfl | hj
    · rw [rankAt_swap_right]
      exact hroot k hk
    · rw [hlast j hj]
      exact (d.above 0 j (by omega) hj hjs).trans (hroot k hk)
  · intro i j hi hij hjs
    rw [size_siftDown, Array.size_swap] at hjs
    rw [rankAt_siftDown_of_le hi, rankAt_siftDown_of_le (by omega), hlast j (by omega)]
    rcases Nat.eq_or_lt_of_le hi with rfl | hi
    · rw [rankAt_swap_right]
      exact d.above 0 j (by omega) (by omega) hjs
    · rw [hlast i hi]
      exact d.descending i j (by omega) hij hjs

theorem drainFrom_perm {heap : Array Neighbor} {stop : Nat} {hstop : stop ≤ heap.size} :
    (drainFrom heap stop hstop).Perm heap := by
  fun_induction drainFrom heap stop hstop with
  | case1 => exact .rfl
  | case2 => exact .rfl
  | case3 heap n hstop ih => exact ih.trans (siftDown_perm.trans (Array.swap_perm _ _))

/-- A heap that is drained from any stage on ends up in descending order. -/
theorem drainFrom_descending {heap : Array Neighbor} {stop : Nat} {hstop : stop ≤ heap.size}
    (hnum : Numbers heap) (d : Drained heap stop) :
    ∀ i j, i < j → j < (drainFrom heap stop hstop).size →
      rankAt (drainFrom heap stop hstop) j ≤ rankAt (drainFrom heap stop hstop) i := by
  fun_induction drainFrom heap stop hstop with
  | case1 heap hstop => exact fun i j hij hj => d.descending i j (by omega) hij hj
  | case2 heap hstop =>
    intro i j hij hj
    rcases Nat.eq_zero_or_pos i with rfl | hi
    · exact d.above 0 j (by omega) (by omega) hj
    · exact d.descending i j hi hij hj
  | case3 heap n hstop ih =>
    exact ih (hnum.perm (siftDown_perm.trans (Array.swap_perm _ _))) (d.step hnum)

theorem drain_perm {heap : Array Neighbor} : (drain heap).Perm heap := drainFrom_perm

/-- Draining a heap sorts it by descending score. -/
theorem drain_pairwise {heap : Array Neighbor} (hnum : Numbers heap)
    (h : OrderedBelow heap heap.size) :
    (drain heap).toList.Pairwise fun a b => rank b.score ≤ rank a.score := by
  have d : Drained heap heap.size :=
    ⟨h, fun i j _ hj hjs => absurd hjs (Nat.not_lt.mpr hj),
      fun i j hi hij hjs => absurd hjs (by omega)⟩
  rw [List.pairwise_iff_getElem]
  intro i j hi hj hij
  have hle : rankAt (drain heap) j ≤ rankAt (drain heap) i :=
    drainFrom_descending hnum d i j hij hj
  rw [rankAt_eq hi, rankAt_eq hj] at hle
  simpa using hle

end NeighborHeap

end ItemNeighbors
