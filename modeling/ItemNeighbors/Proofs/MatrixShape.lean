import Mathlib.Data.List.Nodup
import Mathlib.Data.List.Perm.Subperm
import ItemNeighbors.Proofs.CoRating
import ItemNeighbors.Proofs.FinishedRuns

/-!
# The shape of a matrix

An accumulator stores whatever it is given, the same neighbor twice if it comes twice. That this
does not happen is due to the strategies: no address occurs twice in a run, whatever the context
holds and whatever the universe of the accumulator is.

- `SimilarityMatrix.Proper`: the shape of a matrix that a run may return.
- `SimilarityMatrix.mem_toList_iff`: the list of the rows and the look-up of a row.
- `Strategy.pairwise_pairs`: the pairs of a run ascend.
- `Strategy.nodup_addresses`: no address occurs twice in a run.
- `Strategy.proper_of_run`: every finished run returns a matrix of that shape.
-/

namespace ItemNeighbors

namespace SimilarityMatrix

/-- The row holds at most `k` members of the universe, none of them twice, and not its own item. -/
structure IsRow (members : ItemSet) (k : Nat) (item : ItemId) (row : List Neighbor) : Prop where
  own : item ∉ row.map (·.item)
  distinct : (row.map (·.item)).Nodup
  mem : ∀ n ∈ row, n.item ∈ members.toList
  length : row.length ≤ min k (members.size - 1)

/-- The matrix has one such row per member, in ascending order, and the score of a pair is the one
that the row shows. -/
structure Proper (m : SimilarityMatrix) (members : ItemSet) (k : Nat) : Prop where
  items : m.toList.map (·.1) = members.toList
  neighbors?_iff : ∀ item row, m.neighbors? item = some row ↔ (item, row) ∈ m.toList
  row : ∀ item row, m.neighbors? item = some row → IsRow members k item row
  get?_iff : ∀ item other score, m.get? item other = some score ↔
    ∃ row, m.neighbors? item = some row ∧ ⟨other, score⟩ ∈ row

theorem map_fst_toList (m : SimilarityMatrix) : m.toList.map (·.1) = m.items.toList := by
  have hsize : m.rows.size = m.items.ids.size := m.size_rows
  exact List.map_fst_zip (by simp [ItemSet.toList, hsize])

/-- The listed rows are those that can be looked up. -/
theorem mem_toList_iff {m : SimilarityMatrix} {item : ItemId} {row : List Neighbor} :
    (item, row) ∈ m.toList ↔ m.neighbors? item = some row := by
  have hsize : m.rows.size = m.items.ids.size := m.size_rows
  rw [toList, List.mem_iff_getElem, neighbors?, Option.bind_eq_some_iff]
  simp only [List.getElem_zip, List.length_zip, List.length_map, List.getElem_map, Prod.mk.injEq,
    ItemSet.indexOf?_eq_some_iff, Option.map_eq_some_iff, Array.getElem?_eq_some_iff,
    ItemSet.toList, Array.length_toList, Array.getElem_toList]
  constructor
  · rintro ⟨p, hp, hitem, hrow⟩
    exact ⟨p, ⟨by omega, hitem⟩, m.rows[p], ⟨by omega, rfl⟩, hrow⟩
  · rintro ⟨p, ⟨hp, hitem⟩, r, ⟨hp', rfl⟩, hrow⟩
    exact ⟨p, by omega, hitem, hrow⟩

/-- Among distinct neighbors a search finds every one of them. -/
theorem map_score_find?_eq_some_iff {row : List Neighbor} (h : (row.map (·.item)).Nodup)
    {other : ItemId} {score : Float} :
    (row.find? fun n => n.item == other).map (·.score) = some score ↔ ⟨other, score⟩ ∈ row := by
  induction row with
  | nil => simp
  | cons n row ih =>
    obtain ⟨hn, hrow⟩ := List.nodup_cons.mp h
    rw [List.find?_cons, List.mem_cons]
    by_cases hother : n.item = other
    · -- the rest of the row has no second neighbor of this name
      have hrest : ⟨other, score⟩ ∉ row := fun hmem =>
        hn (List.mem_map.mpr ⟨_, hmem, hother.symm⟩)
      simp only [hother, beq_self_eq_true, Option.map_some, Option.some.injEq, hrest, or_false]
      constructor
      · rintro rfl
        rw [← hother]
      · rintro rfl
        rfl
    · have hne : (⟨other, score⟩ : Neighbor) ≠ n := by
        rintro rfl
        exact hother rfl
      simp only [beq_eq_false_iff_ne.mpr hother, ih hrow, hne, false_or]

/-- In rows of distinct neighbors the score of a pair is the one that the row shows. -/
theorem get?_eq_some_iff {m : SimilarityMatrix} {item other : ItemId} {score : Float}
    (h : ∀ row, m.neighbors? item = some row → (row.map (·.item)).Nodup) :
    m.get? item other = some score ↔
      ∃ row, m.neighbors? item = some row ∧ ⟨other, score⟩ ∈ row := by
  rw [get?, Option.bind_eq_some_iff]
  refine exists_congr fun row => and_congr_right fun hrow => ?_
  exact map_score_find?_eq_some_iff (h row hrow)

end SimilarityMatrix

namespace Truncation

variable {t : Truncation} {item : ItemId} {puts : List Put} {n : Neighbor}

/-! ## Rows -/

/-- A row is offered what is put into it and exceeds the threshold, but never its own item. -/
theorem of_mem_offersTo (h : n ∈ t.offersTo item puts) :
    (item, n.item, n.score) ∈ puts ∧ n.item ≠ item ∧ t.threshold < n.score := by
  obtain ⟨⟨i, other, score⟩, hp, hn⟩ := List.mem_filterMap.mp h
  dsimp only at hn
  split at hn
  · rename_i hkept
    obtain ⟨rfl, hne, hlt⟩ := hkept
    cases hn
    exact ⟨hp, hne.symm, hlt⟩
  · cases hn

theorem mem_offersTo :
    n ∈ t.offersTo item puts ↔
      (item, n.item, n.score) ∈ puts ∧ n.item ≠ item ∧ t.threshold < n.score := by
  refine ⟨of_mem_offersTo, fun ⟨hput, hne, hlt⟩ => ?_⟩
  exact List.mem_filterMap.mpr ⟨_, hput, if_pos ⟨rfl, hne.symm, hlt⟩⟩

/-- Neighbors are offered in the order of their addresses. -/
theorem map_item_offersTo_sublist (t : Truncation) (item : ItemId) (puts : List Put) :
    ((t.offersTo item puts).map (·.item)).Sublist
      (((puts.map Put.address).filter (·.1 = item)).map (·.2)) := by
  induction puts with
  | nil => exact List.Sublist.refl _
  | cons p puts ih =>
    obtain ⟨i, other, score⟩ := p
    rw [List.map_cons, List.filter_cons]
    by_cases hkept : i = item ∧ i ≠ other ∧ t.threshold < score
    · have hoffers : t.offersTo item ((i, other, score) :: puts) =
          ⟨other, score⟩ :: t.offersTo item puts :=
        List.filterMap_cons_some (if_pos hkept)
      rw [hoffers]
      obtain ⟨rfl, -⟩ := hkept
      simpa [Put.address] using ih
    · have hoffers : t.offersTo item ((i, other, score) :: puts) = t.offersTo item puts :=
        List.filterMap_cons_none (if_neg hkept)
      rw [hoffers]
      split
      · exact ih.cons _
      · exact ih

/-- A row whose addresses are distinct is offered distinct neighbors. -/
theorem nodup_offersTo (h : (puts.map Put.address).Nodup) :
    ((t.offersTo item puts).map (·.item)).Nodup := by
  refine (map_item_offersTo_sublist t item puts).nodup ((h.filter _).map_on ?_)
  intro a ha b hb hab
  have ha' : a.1 = item := by simpa using (List.mem_filter.mp ha).2
  have hb' : b.1 = item := by simpa using (List.mem_filter.mp hb).2
  exact Prod.ext (ha'.trans hb'.symm) hab

/-- No more distinct neighbors are offered to a member than there are other members. -/
theorem length_offersTo_le {members : ItemSet} (hnodup : (puts.map Put.address).Nodup)
    (hmem : ∀ p ∈ puts, p.2.1 ∈ members.toList) (hitem : item ∈ members.toList) :
    (t.offersTo item puts).length ≤ members.size - 1 := by
  have hsub : (t.offersTo item puts).map (·.item) ⊆ members.toList.erase item := by
    intro other hother
    obtain ⟨n, hn, rfl⟩ := List.mem_map.mp hother
    obtain ⟨hput, hne, -⟩ := of_mem_offersTo hn
    exact (List.mem_erase_of_ne hne).mpr (hmem _ hput)
  have hsize := (List.subperm_of_subset (nodup_offersTo hnodup) hsub).length_le
  rwa [List.length_map, List.length_erase_of_mem hitem] at hsize

/-- The finished row holds the best of what it was offered. -/
theorem isTop_rowAfter (t : Truncation) (item : ItemId) (puts : List Put) :
    IsTop t.neighborhoodSize (t.offersTo item puts)
      (NeighborHeap.drain (t.rowAfter puts item)).toList :=
  NeighborHeap.isTop_drain_best _ fun _ hn =>
    Score.isNaN_eq_false_of_lt (of_mem_offersTo hn).2.2

/-- The finished row of a member, after puts at distinct addresses in the universe. -/
theorem isRow_rowAfter {members : ItemSet} (hnodup : (puts.map Put.address).Nodup)
    (hmem : ∀ p ∈ puts, p.1 ∈ members.toList ∧ p.2.1 ∈ members.toList)
    (hitem : item ∈ members.toList) :
    SimilarityMatrix.IsRow members t.neighborhoodSize item
      (NeighborHeap.drain (t.rowAfter puts item)).toList := by
  have htop := isTop_rowAfter t item puts
  constructor
  · intro hown
    obtain ⟨n, hn, heq⟩ := List.mem_map.mp hown
    exact (of_mem_offersTo (htop.mem_offers hn)).2.1 heq
  · exact htop.nodup_map_item (nodup_offersTo hnodup)
  · exact fun n hn => (hmem _ (of_mem_offersTo (htop.mem_offers hn)).1).2
  · have hle : (t.offersTo item puts).length ≤ members.size - 1 :=
      length_offersTo_le hnodup (fun p hp => (hmem p hp).2) hitem
    rw [htop.length, Multiset.coe_card]
    omega

end Truncation

namespace Strategy

variable {s : Strategy} {c : BuildContext} {item other : ItemId}

/-! ## Addresses -/

/-- Partners are admitted, and they ascend. -/
theorem pairwise_of_partners_eq_ok {vector : SparseVector} {others : List ItemId}
    (h : s.partners c item vector = .ok others) :
    others.Pairwise (· < ·) ∧ ∀ other ∈ others, s.admits item other = true := by
  unfold partners at h
  cases hsparse : s.isSparse with
  | false =>
    simp only [hsparse] at h
    cases h
    exact ⟨(ItemSet.toList_pairwise _).filter _, fun other hother => (List.mem_filter.mp hother).2⟩
  | true =>
    simp only [hsparse, if_true] at h
    cases hfound : coRatedItems c vector with
    | error e =>
      rw [hfound] at h
      cases h
    | ok found =>
      rw [hfound] at h
      cases h
      refine ⟨ItemSet.toList_pairwise _, fun other hother => ?_⟩
      exact (List.mem_filter.mp (ItemSet.mem_toList_ofList.mp hother)).2

theorem pairwise_partnersOf (s : Strategy) (c : BuildContext) (item : ItemId) :
    (s.partnersOf c item).Pairwise (· < ·) ∧
      ∀ other ∈ s.partnersOf c item, s.admits item other = true := by
  rw [partnersOf]
  split
  · exact pairwise_of_partners_eq_ok ‹_›
  · exact ⟨List.Pairwise.nil, by simp⟩

/-- The pairs of a run are admitted by its strategy. -/
theorem admits_of_mem_pairs (h : (item, other) ∈ s.pairs c) : s.admits item other = true := by
  obtain ⟨item', -, hp⟩ := List.mem_flatMap.mp h
  obtain ⟨other', hother, heq⟩ := List.mem_map.mp hp
  cases heq
  exact (pairwise_partnersOf s c item).2 other hother

/-- A strategy that scores each pair once does so at the turn of the larger item. -/
theorem lt_of_mem_pairs (hs : s.isSymmetric = true) (h : (item, other) ∈ s.pairs c) :
    other < item := by
  simpa [admits, hs] using admits_of_mem_pairs h

/-- The pairs ascend, first by the item whose turn it is, then by its partner. -/
theorem pairwise_pairs (s : Strategy) (c : BuildContext) :
    (s.pairs c).Pairwise fun p q => p.1 < q.1 ∨ p.1 = q.1 ∧ p.2 < q.2 := by
  refine List.pairwise_flatMap.mpr ⟨fun item _ => ?_, ?_⟩
  · exact List.pairwise_map.mpr ((pairwise_partnersOf s c item).1.imp fun hlt => .inr ⟨rfl, hlt⟩)
  · refine (ItemSet.toList_pairwise c.items).imp fun hlt p hp q hq => ?_
    obtain ⟨_, -, rfl⟩ := List.mem_map.mp hp
    obtain ⟨_, -, rfl⟩ := List.mem_map.mp hq
    exact .inl hlt

/-- No pair is scored twice. -/
theorem nodup_pairs (s : Strategy) (c : BuildContext) : (s.pairs c).Nodup := by
  refine (pairwise_pairs s c).imp ?_
  rintro p _ (hlt | ⟨-, hlt⟩) rfl
  · exact UInt64.lt_irrefl _ hlt
  · exact UInt64.lt_irrefl _ hlt

/-- No address occurs twice in a run. -/
theorem nodup_addresses (s : Strategy) (c : BuildContext) : (s.addresses c).Nodup := by
  rw [addresses_eq_flatMap_pairs]
  cases hsym : s.isSymmetric with
  | false =>
    have hsame : (s.pairs c).flatMap (fun p => s.directions p.1 p.2) = s.pairs c := by
      simp [directions, hsym]
    rw [hsame]
    exact nodup_pairs s c
  | true =>
    -- the first item of a pair is the larger one, so a pair is no other pair turned around
    have hlt : ∀ {item other}, (item, other) ∈ s.pairs c → other < item := lt_of_mem_pairs hsym
    have hdirections : ∀ {item other a}, a ∈ s.directions item other ↔
        a = (item, other) ∨ a = (other, item) := by
      simp [directions, hsym]
    refine List.nodup_flatMap.mpr ⟨?_, ?_⟩
    · rintro ⟨item, other⟩ hp
      have hne : item ≠ other := (UInt64.ne_of_lt (hlt hp)).symm
      simp [directions, hsym, hne]
    · refine (nodup_pairs s c).pairwise_of_forall_ne ?_
      rintro ⟨item, other⟩ hp ⟨item', other'⟩ hp' hne a ha ha'
      rcases hdirections.mp ha with rfl | rfl <;> rcases hdirections.mp ha' with heq | heq <;>
        cases heq
      · exact hne rfl
      · exact UInt64.lt_asymm (hlt hp) (hlt hp')
      · exact UInt64.lt_asymm (hlt hp) (hlt hp')
      · exact hne rfl

/-! ## The matrix -/

/-- No address is put to twice, whatever the similarity answers. -/
theorem nodup_map_address_putsFrom (sim : Similarity) (n : Nat) :
    ((s.putsFrom sim c n (s.pairs c)).map Put.address).Nodup := by
  rw [map_address_putsFrom, ← addresses_eq_flatMap_pairs]
  exact nodup_addresses s c

variable {sim : Similarity} {t : Truncation} {members : ItemSet} {m : SimilarityMatrix}
  {j j' : Journal}

/-- **Every finished run returns a matrix of the same shape**, on whatever context and for whatever
universe: one row per member, with distinct other members, as many as a row may keep. -/
theorem proper_of_run (h : (s.buildMatrix sim c (t.factory members)).run j = (.ok m, j')) :
    m.Proper members t.neighborhoodSize := by
  obtain ⟨puts, acc, haddresses, hputs, rfl⟩ := exists_puts_of_run h
  obtain ⟨rfl, hmem⟩ := NeighborAccumulator.eq_after_of_putAll hputs
  have hnodup : (puts.map Put.address).Nodup := haddresses ▸ nodup_addresses s c
  have hrow : ∀ item row, (NeighborAccumulator.after t members puts).toMatrix.neighbors? item =
      some row → SimilarityMatrix.IsRow members t.neighborhoodSize item row := by
    intro item row hsome
    have hitem : item ∈ members.toList :=
      SimilarityMatrix.neighbors?_isSome_iff.mp (Option.isSome_iff_exists.mpr ⟨row, hsome⟩)
    rw [NeighborAccumulator.neighbors?_toMatrix_after hitem] at hsome
    obtain rfl := Option.some.inj hsome
    exact Truncation.isRow_rowAfter hnodup hmem hitem
  exact {
    items := SimilarityMatrix.map_fst_toList _
    neighbors?_iff := fun item row => SimilarityMatrix.mem_toList_iff.symm
    row := hrow
    get?_iff := fun item other score => SimilarityMatrix.get?_eq_some_iff fun row hsome =>
      (hrow item row hsome).distinct }

/-- It is so even if the set of a user has an item that the context does not list and the
accumulator knows. -/
theorem proper_of_stray_set :
    let c : BuildContext :=
      { items := .ofList [1]
        itemVectors := ((∅ : Std.HashMap ItemId SparseVector).insert 2 ∅).insert 1
          (.ofPairs [(7, 4.0)])
        userItems := some ((∅ : Std.HashMap UserId ItemSet).insert 7 (.ofList [1, 2])) }
    ∃ m j, (sparse.buildMatrix (.cosine 0.0) c
        (Truncation.factory ⟨1, -1.0⟩ (.ofList [1, 2]))).run (.start 0) = (.ok m, j) ∧
      m.Proper (.ofList [1, 2]) 1 := by
  intro c
  have hvector : c.itemVector? 1 = some (.ofPairs [(7, 4.0)]) := by
    simp [c, BuildContext.itemVector?]
  have hset : ∀ user, c.userItemSet user =
      .ok (if 7 = user then some (.ofList [1, 2]) else none) := by
    intro user
    simp [c, BuildContext.userItemSet, Std.HashMap.getElem?_insert]
  have hkeys : ∀ user, user ∈ (c.vectorOf 1).keys ↔ 7 = user := by
    intro user
    simp [BuildContext.vectorOf, hvector, SparseVector.mem_keys_iff, SparseVector.get?_ofPairs]
  have hpartners : sparse.partners c 1 (c.vectorOf 1) = .ok [2] := by
    refine partners_eq_of_isSparse rfl (fun user => ⟨_, hset user⟩) (by simp) ?_
    intro other
    simp only [List.mem_singleton, admits, isSymmetric, Bool.false_eq_true, if_false, bne_iff_ne,
      hkeys, BuildContext.setOf, hset, exists_eq_left', if_true, ItemSet.mem_toList_ofList]
    grind
  have hpartnersOf : sparse.partnersOf c 1 = [2] := by
    rw [partnersOf, hpartners]
  have hscorable : sparse.Scorable c (.ofList [1, 2]) := by
    intro item hitem
    obtain rfl : item = 1 := by simpa [c] using hitem
    exact {
      vector := by simp [hvector]
      partners := by rw [hpartners, hpartnersOf]
      otherVector := by
        simp [hpartnersOf, c, BuildContext.itemVector?, Std.HashMap.getElem?_insert]
      mem := by simp [hpartnersOf] }
  have hrun := run_buildMatrix (t := ⟨1, -1.0⟩) (j := .start 0)
    (Similarity.total_ofFunction (Similarity.cosineScore 0.0) true true) hscorable
  exact ⟨_, _, hrun, proper_of_run hrun⟩

end Strategy

end ItemNeighbors
