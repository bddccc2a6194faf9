import Mathlib.Data.List.Induction
import Mathlib.Data.Multiset.AddSub
import Mathlib.Data.Multiset.MapFold
import ItemNeighbors.Proofs.HeapOrder

/-!
# Bounded heaps keep the best

A heap of bounded size that is offered one neighbor after the other holds the best of them; what
it turned away or dropped has no higher score than what it kept.

- `NeighborHeap.best`: the heap after some offers.
- `NeighborHeap.Keeps`: what that heap has to do with the offers.
- `NeighborHeap.keeps_offer`, `NeighborHeap.keeps_best`: one offer, and all of them.
- `NeighborHeap.exists_dropped_drain_best`: the same of the finished row.
- `IsTop`, `NeighborHeap.isTop_drain_best`: the same by the scores themselves.
-/

namespace ItemNeighbors

/-- The row holds the best `k` of some neighbors, or all of them if there are fewer. -/
structure IsTop (k : Nat) (offers : Multiset Neighbor) (row : List Neighbor) : Prop where
  le : (row : Multiset Neighbor) ≤ offers
  length : row.length = min k offers.card
  sorted : row.Pairwise fun a b => b.score ≤ a.score
  /-- What is left out does not exceed what is in the row. -/
  leftOut : ∀ n ∈ offers - row, ∀ kept ∈ row, n.score ≤ kept.score

namespace IsTop

variable {k : Nat} {offers : Multiset Neighbor} {row : List Neighbor} {n kept : Neighbor}

theorem mem_offers (h : IsTop k offers row) (hn : n ∈ row) : n ∈ offers :=
  Multiset.mem_of_le h.le hn

theorem nodup_map_item {l : List Neighbor} (h : IsTop k l row) (hl : (l.map (·.item)).Nodup) :
    (row.map (·.item)).Nodup :=
  Multiset.coe_nodup.mp
    (Multiset.nodup_of_le (Multiset.map_le_map h.le) (Multiset.coe_nodup.mpr hl))

theorem le_of_not_mem (h : IsTop k offers row) (hn : n ∈ offers) (hrow : n ∉ row)
    (hkept : kept ∈ row) : n.score ≤ kept.score := by
  refine h.leftOut n (Multiset.mem_sub.mpr ?_) kept hkept
  rw [Multiset.count_eq_zero_of_notMem hrow]
  exact Multiset.count_pos.mpr hn

/-- If there is room for all offers, none is left out. -/
theorem coe_eq (h : IsTop k offers row) (hk : offers.card ≤ k) :
    (row : Multiset Neighbor) = offers :=
  Multiset.eq_of_le_of_card_le h.le (by rw [Multiset.coe_card, h.length]; omega)

end IsTop

namespace NeighborHeap

open Score (rank)

/-- The heap of at most `bound` neighbors after some offers. -/
def best (bound : Nat) (offers : List Neighbor) : Array Neighbor :=
  offers.foldl (offer bound) #[]

@[simp] theorem best_concat (bound : Nat) (offers : List Neighbor) (x : Neighbor) :
    best bound (offers ++ [x]) = offer bound (best bound offers) x := by
  simp [best]

/-- A heap without room takes nothing in. -/
theorem best_zero (offers : List Neighbor) : best 0 offers = #[] := by
  induction offers using List.reverseRecOn with
  | nil => rfl
  | append_singleton offers x ih => simp [ih, offer]

/-- The heap is ordered, as full as it can be, and the other offers are not above it. -/
structure Keeps (bound : Nat) (offers : List Neighbor) (heap : Array Neighbor) : Prop where
  numbers : Numbers heap
  ordered : OrderedBelow heap heap.size
  size : heap.size = min bound offers.length
  dropped : ∃ dropped, (heap.toList ++ dropped).Perm offers ∧
    ∀ d ∈ dropped, ∀ n ∈ heap, rank d.score ≤ rank n.score

theorem keeps_nil (bound : Nat) : Keeps bound [] #[] where
  numbers := fun n hn => absurd hn (by simp)
  ordered := fun i _ hi => absurd hi (Nat.not_lt_zero i)
  size := by simp
  dropped := ⟨[], by simp, by simp⟩

/-- In a heap the root is the least of all elements. -/
theorem OrderedBelow.root_le_of_mem {heap : Array Neighbor} (h : OrderedBelow heap heap.size)
    (hpos : 0 < heap.size) {n : Neighbor} (hn : n ∈ heap) :
    rank heap[0].score ≤ rank n.score := by
  obtain ⟨i, hi, rfl⟩ := Array.mem_iff_getElem.mp hn
  have hle := h.root_le hi
  rwa [rankAt_eq hpos, rankAt_eq hi] at hle

theorem Numbers.set {heap : Array Neighbor} (h : Numbers heap) {x : Neighbor}
    (hx : x.score.isNaN = false) (hpos : 0 < heap.size) : Numbers (heap.set 0 x) := by
  intro n hn
  rcases Array.mem_or_eq_of_mem_set hn with hn | rfl
  · exact h n hn
  · exact hx

/-- Replacing the root trades it for the new element. -/
theorem replaceRoot_cons_perm {heap : Array Neighbor} {x : Neighbor} (hpos : 0 < heap.size) :
    (heap[0] :: (replaceRoot heap x hpos).toList).Perm (x :: heap.toList) := by
  have hperm : (replaceRoot heap x hpos).toList.Perm (heap.set 0 x).toList :=
    replaceRoot_perm.toList
  refine (hperm.cons _).trans ?_
  obtain ⟨l⟩ := heap
  cases l with
  | nil => exact absurd hpos (by simp)
  | cons root rest => simpa using List.Perm.swap x root rest

namespace Keeps

variable {bound : Nat} {offers : List Neighbor} {heap : Array Neighbor} {x : Neighbor}

/-- A heap with room has dropped nothing yet. -/
theorem perm_of_lt (h : Keeps bound offers heap) (hroom : heap.size < bound) :
    heap.toList.Perm offers := by
  obtain ⟨dropped, hperm, -⟩ := h.dropped
  have hlen : heap.size + dropped.length = offers.length := by simpa using hperm.length_eq
  have hsize := h.size
  have hnone : dropped = [] := List.length_eq_zero_iff.mp (by omega)
  simpa [hnone] using hperm

/-- A heap with room takes the offer in. -/
theorem pushed (h : Keeps bound offers heap) (hx : x.score.isNaN = false)
    (hroom : heap.size < bound) : Keeps bound (offers ++ [x]) (push heap x) := by
  have hnum : Numbers (heap.push x) := by
    intro n hn
    rcases Array.mem_push.mp hn with hn | rfl
    · exact h.numbers n hn
    · exact hx
  have hsize := h.size
  have hpush : (push heap x).toList.Perm (heap.push x).toList := push_perm.toList
  refine ⟨hnum.perm push_perm, push_ordered hnum h.ordered, ?_, [], ?_, by simp⟩
  · rw [show (push heap x).size = (heap.push x).size from size_siftUp, Array.size_push,
      List.length_append, List.length_singleton]
    omega
  · rw [List.append_nil]
    refine hpush.trans ?_
    rw [Array.toList_push]
    exact (h.perm_of_lt hroom).append_right [x]

/-- A full heap trades its root for an offer that outranks it. -/
theorem rootReplaced (h : Keeps bound offers heap) (hx : x.score.isNaN = false)
    (hfull : ¬ heap.size < bound) (hpos : 0 < heap.size) (hout : x.outranks heap[0] = true) :
    Keeps bound (offers ++ [x]) (replaceRoot heap x hpos) := by
  obtain ⟨dropped, hperm, hbelow⟩ := h.dropped
  have hroot : rank heap[0].score < rank x.score :=
    (Neighbor.outranks_iff hx (h.numbers _ (Array.getElem_mem hpos))).mp hout
  have hnum := h.numbers.set hx hpos
  have hsize := h.size
  have hcons := replaceRoot_cons_perm (x := x) hpos
  refine ⟨hnum.perm replaceRoot_perm, replaceRoot_ordered hnum h.ordered, ?_,
    heap[0] :: dropped, ?_, ?_⟩
  · rw [size_replaceRoot, List.length_append, List.length_singleton]
    omega
  · calc (replaceRoot heap x hpos).toList ++ heap[0] :: dropped
      _ |>.Perm (heap[0] :: (replaceRoot heap x hpos).toList ++ dropped) := List.perm_middle
      _ |>.Perm (x :: (heap.toList ++ dropped)) := hcons.append_right dropped
      _ |>.Perm (x :: offers) := hperm.cons x
      _ |>.Perm (offers ++ [x]) := (List.perm_append_singleton x offers).symm
  · intro d hd n hn
    -- the root goes between what is dropped and what is kept
    have hd' : rank d.score ≤ rank heap[0].score := by
      rcases List.mem_cons.mp hd with rfl | hd
      · exact le_refl _
      · exact hbelow d hd _ (Array.getElem_mem hpos)
    have hn' : n = x ∨ n ∈ heap := by
      simpa using hcons.subset (List.mem_cons_of_mem _ (Array.mem_toList_iff.mpr hn))
    rcases hn' with rfl | hn'
    · exact hd'.trans hroot.le
    · exact hd'.trans (h.ordered.root_le_of_mem hpos hn')

/-- A full heap turns away an offer that is above none of its elements. -/
theorem turnedAway (h : Keeps bound offers heap) (hfull : ¬ heap.size < bound)
    (hle : ∀ n ∈ heap, rank x.score ≤ rank n.score) : Keeps bound (offers ++ [x]) heap := by
  obtain ⟨dropped, hperm, hbelow⟩ := h.dropped
  have hsize := h.size
  refine ⟨h.numbers, h.ordered, ?_, x :: dropped, ?_, ?_⟩
  · rw [List.length_append, List.length_singleton]
    omega
  · exact (List.perm_middle.trans (hperm.cons x)).trans
      (List.perm_append_singleton x offers).symm
  · intro d hd n hn
    rcases List.mem_cons.mp hd with rfl | hd
    · exact hle n hn
    · exact hbelow d hd n hn

end Keeps

/-- One offer. A heap with room takes it in; a full one turns away the least of all. -/
theorem keeps_offer {bound : Nat} {offers : List Neighbor} {heap : Array Neighbor} {x : Neighbor}
    (hx : x.score.isNaN = false) (h : Keeps bound offers heap) :
    Keeps bound (offers ++ [x]) (offer bound heap x) := by
  unfold offer
  split
  · exact h.pushed hx ‹_›
  · rename_i hfull
    split
    · rename_i hpos
      split
      · exact h.rootReplaced hx hfull hpos ‹_›
      · rename_i hnlt
        have hroot : rank x.score ≤ rank heap[0].score := not_lt.mp fun hlt =>
          hnlt ((Neighbor.outranks_iff hx (h.numbers _ (Array.getElem_mem hpos))).mpr hlt)
        exact h.turnedAway hfull fun n hn => hroot.trans (h.ordered.root_le_of_mem hpos hn)
    · -- there is no room at all
      rename_i hempty
      have hnil : heap = #[] := Array.size_eq_zero_iff.mp (by omega)
      exact h.turnedAway hfull fun n hn => absurd hn (by simp [hnil])

/-- A bounded heap keeps the best of what it is offered. -/
theorem keeps_best (bound : Nat) {offers : List Neighbor}
    (hnum : ∀ n ∈ offers, n.score.isNaN = false) : Keeps bound offers (best bound offers) := by
  induction offers using List.reverseRecOn with
  | nil => exact keeps_nil bound
  | append_singleton offers x ih =>
    rw [best_concat]
    exact keeps_offer (hnum x (by simp)) (ih fun n hn => hnum n (by simp [hn]))

/-- A finished row is sorted, as long as it can be, and the other offers are not above it. -/
theorem exists_dropped_drain_best (bound : Nat) {offers : List Neighbor}
    (hnum : ∀ n ∈ offers, n.score.isNaN = false) :
    (drain (best bound offers)).toList.Pairwise (fun a b => rank b.score ≤ rank a.score) ∧
      (drain (best bound offers)).toList.length = min bound offers.length ∧
      ∃ dropped, ((drain (best bound offers)).toList ++ dropped).Perm offers ∧
        ∀ d ∈ dropped, ∀ n ∈ (drain (best bound offers)).toList,
          rank d.score ≤ rank n.score := by
  have h := keeps_best bound hnum
  have hperm : (drain (best bound offers)).toList.Perm (best bound offers).toList :=
    drain_perm.toList
  obtain ⟨dropped, hall, hbelow⟩ := h.dropped
  refine ⟨drain_pairwise h.numbers h.ordered, ?_, dropped, ?_, ?_⟩
  · rw [hperm.length_eq, Array.length_toList, h.size]
  · exact (hperm.append_right dropped).trans hall
  · exact fun d hd n hn => hbelow d hd n (Array.mem_toList_iff.mp (hperm.subset hn))

/-- A finished row holds the best of what it was offered. -/
theorem isTop_drain_best (k : Nat) {offers : List Neighbor}
    (hnum : ∀ n ∈ offers, n.score.isNaN = false) :
    IsTop k offers (drain (best k offers)).toList := by
  obtain ⟨hsorted, hlength, dropped, hperm, hbelow⟩ := exists_dropped_drain_best k hnum
  have hrow : ∀ n ∈ (drain (best k offers)).toList, n.score.isNaN = false := fun n hn =>
    hnum n (hperm.subset (List.mem_append_left dropped hn))
  have hsum : (offers : Multiset Neighbor) = dropped + (drain (best k offers)).toList := by
    rw [Multiset.coe_add, Multiset.coe_eq_coe]
    exact (List.perm_append_comm.trans hperm).symm
  constructor
  · rw [hsum]
    exact Multiset.le_add_left _ _
  · exact hlength
  · refine hsorted.imp_of_mem fun ha hb hrank => ?_
    exact Score.le_iff.mpr ⟨hrow _ hb, hrow _ ha, hrank⟩
  · intro n hn kept hkept
    rw [hsum, Multiset.add_sub_cancel_right] at hn
    have hn' : n ∈ dropped := hn
    exact Score.le_iff.mpr ⟨hnum n (hperm.subset (List.mem_append_right _ hn')),
      hrow kept hkept, hbelow n hn' kept hkept⟩

end NeighborHeap

end ItemNeighbors
