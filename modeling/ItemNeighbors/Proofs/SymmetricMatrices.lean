import Mathlib.Data.Sym.Sym2
import ItemNeighbors.Proofs.MatrixShape

/-!
# Symmetric matrices

A strategy that files each score in both directions asks for a pair once, at the turn of its larger
item. So its matrix is symmetric, whatever the similarity answers and whatever the context holds:
the rows of a pair are different heaps, but what they were given for it is one number.

- `Journal.AsksOnce`: no unordered pair was asked for twice, and none of an item with itself.
- `Strategy.swap_mem_putsFrom`: what is filed in one direction is filed in the other.
- `NeighborAccumulator.mem_puts_of_get?_eq_some`, `NeighborAccumulator.get?_eq_some_iff_mem_puts`:
  the scores of a finished matrix and the puts, without and with room for all neighbors.
- `NeighborAccumulator.eq_of_get?_eq_some`, `NeighborAccumulator.isSome_get?_comm`: what follows if
  each score is put in both directions.
- `Strategy.symmetric_of_run`: the journal and the matrix of such a run.
-/

namespace ItemNeighbors

/-- The similarity was asked once for each of some unordered pairs of different items, always with
the vector of the larger item first. -/
structure Journal.AsksOnce (j : Journal) (c : BuildContext) (before : Nat) : Prop where
  /-- The calls that were made are those on record. -/
  asked : j.asked = before + j.askedPairs.length
  nodup : (j.askedPairs.map fun p => s(p.1, p.2)).Nodup
  vectors : ∀ item other a b, Event.asked item other a b ∈ j.events →
    other < item ∧ c.itemVector? item = some a ∧ c.itemVector? other = some b

namespace NeighborAccumulator

variable {t : Truncation} {members : ItemSet} {puts : List Put} {item other : ItemId}
  {score : Float}

/-- The scores of a finished matrix are those of its rows. -/
theorem get?_toMatrix_after_eq_some_iff (hnodup : (puts.map Put.address).Nodup) :
    (after t members puts).toMatrix.get? item other = some score ↔
      item ∈ members.toList ∧
        ⟨other, score⟩ ∈ (NeighborHeap.drain (t.rowAfter puts item)).toList := by
  by_cases hitem : item ∈ members.toList
  · rw [SimilarityMatrix.get?_eq_some_iff, neighbors?_toMatrix_after hitem]
    · simp [hitem]
    · intro row hrow
      rw [neighbors?_toMatrix_after hitem] at hrow
      obtain rfl := Option.some.inj hrow
      exact (t.isTop_rowAfter item puts).nodup_map_item (Truncation.nodup_offersTo hnodup)
  · rw [SimilarityMatrix.get?, neighbors?_toMatrix_after_of_not_mem hitem]
    simp [hitem]

/-- A score of a finished matrix was put there. -/
theorem mem_puts_of_get?_eq_some (hnodup : (puts.map Put.address).Nodup)
    (h : (after t members puts).toMatrix.get? item other = some score) :
    (item, other, score) ∈ puts := by
  obtain ⟨-, hrow⟩ := (get?_toMatrix_after_eq_some_iff hnodup).mp h
  exact (Truncation.of_mem_offersTo ((t.isTop_rowAfter item puts).mem_offers hrow)).1

/-- With room for all other members every score above the threshold is kept. -/
theorem get?_eq_some_iff_mem_puts (hnodup : (puts.map Put.address).Nodup)
    (hmem : ∀ p ∈ puts, p.1 ∈ members.toList ∧ p.2.1 ∈ members.toList)
    (hk : members.size - 1 ≤ t.neighborhoodSize) :
    (after t members puts).toMatrix.get? item other = some score ↔
      (item, other, score) ∈ puts ∧ other ≠ item ∧ t.threshold < score := by
  rw [get?_toMatrix_after_eq_some_iff hnodup]
  by_cases hitem : item ∈ members.toList
  · have hroom : (t.offersTo item puts).length ≤ t.neighborhoodSize :=
      (Truncation.length_offersTo_le hnodup (fun p hp => (hmem p hp).2) hitem).trans hk
    have hperm := Multiset.coe_eq_coe.mp ((t.isTop_rowAfter item puts).coe_eq hroom)
    rw [hperm.mem_iff, Truncation.mem_offersTo]
    simp [hitem]
  · simp only [hitem, false_and, false_iff]
    exact fun h => hitem (hmem _ h.1).1

/-- If each score is put in both directions, the two scores of a pair are one number. -/
theorem eq_of_get?_eq_some (hnodup : (puts.map Put.address).Nodup)
    (hswap : ∀ item other score, (item, other, score) ∈ puts → (other, item, score) ∈ puts)
    {x y : Float} (hx : (after t members puts).toMatrix.get? item other = some x)
    (hy : (after t members puts).toMatrix.get? other item = some y) : x = y := by
  have hputx := mem_puts_of_get?_eq_some hnodup hx
  have hputy := hswap _ _ _ (mem_puts_of_get?_eq_some hnodup hy)
  -- one address, one put
  have heq := List.inj_on_of_nodup_map hnodup hputx hputy rfl
  exact (Prod.mk.inj (Prod.mk.inj heq).2).2

/-- With room for all other members the score is there in both directions or in none. -/
theorem isSome_get?_comm (hnodup : (puts.map Put.address).Nodup)
    (hswap : ∀ item other score, (item, other, score) ∈ puts → (other, item, score) ∈ puts)
    (hmem : ∀ p ∈ puts, p.1 ∈ members.toList ∧ p.2.1 ∈ members.toList)
    (hk : members.size - 1 ≤ t.neighborhoodSize) (item other : ItemId) :
    ((after t members puts).toMatrix.get? item other).isSome =
      ((after t members puts).toMatrix.get? other item).isSome := by
  rw [Bool.eq_iff_iff, Option.isSome_iff_exists, Option.isSome_iff_exists]
  refine exists_congr fun score => ?_
  rw [get?_eq_some_iff_mem_puts hnodup hmem hk, get?_eq_some_iff_mem_puts hnodup hmem hk]
  constructor
  · rintro ⟨hput, hne, hlt⟩
    exact ⟨hswap _ _ _ hput, hne.symm, hlt⟩
  · rintro ⟨hput, hne, hlt⟩
    exact ⟨hswap _ _ _ hput, hne.symm, hlt⟩

end NeighborAccumulator

namespace Strategy

variable {s : Strategy} {sim : Similarity} {c : BuildContext} {item other : ItemId}

/-- What is filed in one direction is filed in the other. -/
theorem swap_mem_putsFrom (hs : s.isSymmetric = true) {n : Nat} {pairs : List (ItemId × ItemId)}
    {score : Float} (h : (item, other, score) ∈ s.putsFrom sim c n pairs) :
    (other, item, score) ∈ s.putsFrom sim c n pairs := by
  induction pairs generalizing n with
  | nil => cases h
  | cons pair pairs ih =>
    rw [putsFrom, List.mem_append] at h ⊢
    refine h.imp (fun h => ?_) ih
    simp only [filings, hs, if_true, List.mem_cons, List.not_mem_nil, or_false, Prod.mk.injEq]
      at h ⊢
    rcases h with ⟨rfl, rfl, rfl⟩ | ⟨rfl, rfl, rfl⟩
    · exact .inr ⟨rfl, rfl, rfl⟩
    · exact .inl ⟨rfl, rfl, rfl⟩

/-- The events of some pairs ask for them with their vectors. -/
theorem of_asked_mem_eventsFrom {n : Nat} {pairs : List (ItemId × ItemId)} {a b : SparseVector}
    (h : Event.asked item other a b ∈ s.eventsFrom sim c n pairs) :
    (item, other) ∈ pairs ∧ a = c.vectorOf item ∧ b = c.vectorOf other := by
  induction pairs generalizing n with
  | nil => cases h
  | cons pair pairs ih =>
    rw [eventsFrom, List.cons_append, List.mem_cons, List.mem_append] at h
    rcases h with heq | hput | hrest
    · cases heq
      exact ⟨List.mem_cons_self, rfl, rfl⟩
    · obtain ⟨p, -, heq⟩ := List.mem_map.mp hput
      cases heq
    · obtain ⟨hp, hvectors⟩ := ih hrest
      exact ⟨List.mem_cons_of_mem pair hp, hvectors⟩

/-- No unordered pair is scored twice. -/
theorem nodup_map_sym2_pairs (hs : s.isSymmetric = true) :
    ((s.pairs c).map fun p => s(p.1, p.2)).Nodup := by
  refine (nodup_pairs s c).map_on ?_
  rintro ⟨item, other⟩ hp ⟨item', other'⟩ hp' heq
  rcases Sym2.eq_iff.mp heq with ⟨rfl, rfl⟩ | ⟨rfl, rfl⟩
  · rfl
  · exact absurd (lt_of_mem_pairs hs hp) (UInt64.lt_asymm (lt_of_mem_pairs hs hp'))

variable {t : Truncation} {members : ItemSet} {m : SimilarityMatrix} {j' : Journal} {asked : Nat}

theorem asksOnce_of_run (hs : s.isSymmetric = true) {acc : NeighborAccumulator}
    (h : (s.buildMatrix sim c acc).run (.start asked) = (.ok m, j')) : j'.AsksOnce c asked := by
  obtain ⟨hfound, ⟨acc', hfinishes, -⟩, -⟩ := run_buildMatrix_eq_ok_iff.mp h
  refine ⟨asked_of_run h, ?_, fun item other a b hevent => ?_⟩
  · rw [askedPairs_of_run h]
    exact nodup_map_sym2_pairs hs
  · rw [← Array.mem_toList_iff, events_of_run h] at hevent
    obtain ⟨hp, rfl, rfl⟩ := of_asked_mem_eventsFrom hevent
    obtain ⟨item', hitem, hturn⟩ := List.mem_flatMap.mp hp
    obtain ⟨other', -, heq⟩ := List.mem_map.mp hturn
    cases heq
    exact ⟨lt_of_mem_pairs hs hp, BuildContext.itemVector?_eq_some (hfound item hitem).vector,
      BuildContext.itemVector?_eq_some (hfinishes.vectors _ hp)⟩

/-- **A run that files each score in both directions returns a symmetric matrix**, whatever the
similarity answers and whether it scores all pairs or only some. The two scores of a pair are the
same number, and if there is room for all neighbors then one is there exactly if the other is. -/
theorem symmetric_of_run (hs : s.isSymmetric = true)
    (h : (s.buildMatrix sim c (t.factory members)).run (.start asked) = (.ok m, j')) :
    j'.AsksOnce c asked ∧
      (∀ item other x y, m.get? item other = some x → m.get? other item = some y → x = y) ∧
      (m.items.size - 1 ≤ t.neighborhoodSize →
        ∀ item other, (m.get? item other).isSome = (m.get? other item).isSome) := by
  refine ⟨asksOnce_of_run hs h, ?_⟩
  obtain ⟨-, ⟨acc, hfinishes, rfl⟩, -⟩ := run_buildMatrix_eq_ok_iff.mp h
  obtain ⟨rfl, hmem⟩ := NeighborAccumulator.eq_after_of_putAll hfinishes.accepted
  have hnodup := nodup_map_address_putsFrom (s := s) (c := c) sim asked
  have hswap : ∀ item other score, (item, other, score) ∈ s.putsFrom sim c asked (s.pairs c) →
      (other, item, score) ∈ s.putsFrom sim c asked (s.pairs c) :=
    fun _ _ _ => swap_mem_putsFrom hs
  exact ⟨fun _ _ _ _ => NeighborAccumulator.eq_of_get?_eq_some hnodup hswap,
    fun hk => NeighborAccumulator.isSome_get?_comm hnodup hswap hmem hk⟩

/-- It is so if every call is answered differently, and if the set of a user has items that are not
his. -/
theorem symmetric_of_counting :
    let c : BuildContext :=
      { items := .ofList [1, 2]
        itemVectors := ((∅ : Std.HashMap ItemId SparseVector).insert 1 ∅).insert 2
          (.ofPairs [(7, 4.0)])
        userItems := some ((∅ : Std.HashMap UserId ItemSet).insert 7 (.ofList [1, 2, 9])) }
    let sim : Similarity := ⟨fun n _ _ => some n.toFloat, true, true⟩
    ∃ m j, (sparseSymmetric.buildMatrix sim c
        (Truncation.factory ⟨1, -1.0⟩ (.ofList [1, 2]))).run (.start 3) = (.ok m, j) ∧
      j.AsksOnce c 3 ∧
        (∀ item other x y, m.get? item other = some x → m.get? other item = some y → x = y) ∧
        (m.items.size - 1 ≤ 1 →
          ∀ item other, (m.get? item other).isSome = (m.get? other item).isSome) := by
  intro c sim
  have hvector : ∀ item, c.itemVector? item =
      if 2 = item then some (.ofPairs [(7, 4.0)]) else if 1 = item then some ∅ else none := by
    intro item
    simp [c, BuildContext.itemVector?, Std.HashMap.getElem?_insert]
  have hset : ∀ user, c.userItemSet user =
      .ok (if 7 = user then some (.ofList [1, 2, 9]) else none) := by
    intro user
    simp [c, BuildContext.userItemSet, Std.HashMap.getElem?_insert]
  have hkeys : ∀ item user, user ∈ (c.vectorOf item).keys ↔ 2 = item ∧ 7 = user := by
    intro item user
    rw [BuildContext.vectorOf, hvector, SparseVector.mem_keys_iff]
    by_cases hitem : 2 = item
    · simp [hitem, SparseVector.get?_ofPairs]
    · by_cases hitem' : 1 = item <;> simp [hitem, hitem']
  have hpartners : ∀ item, sparseSymmetric.partners c item (c.vectorOf item) =
      .ok (if 2 = item then [1] else []) := by
    intro item
    refine partners_eq_of_isSparse rfl (fun user => ⟨_, hset user⟩) (by split <;> simp) ?_
    intro other
    by_cases hitem : 2 = item
    · subst hitem
      simp only [if_true, List.mem_singleton, admits, isSymmetric, decide_eq_true_eq, hkeys,
        true_and, BuildContext.setOf, hset, exists_eq_left', ItemSet.mem_toList_ofList]
      grind
    · simp [hitem, hkeys]
  have hpartnersOf : ∀ item, sparseSymmetric.partnersOf c item = if 2 = item then [1] else [] := by
    intro item
    rw [partnersOf, hpartners]
  have hscorable : sparseSymmetric.Scorable c (.ofList [1, 2]) := by
    intro item hitem
    have hitem' : item = 1 ∨ item = 2 := by simpa [c] using hitem
    exact {
      vector := by rcases hitem' with rfl | rfl <;> simp [hvector]
      partners := by rw [hpartners, hpartnersOf]
      otherVector := by
        rw [hpartnersOf]
        split <;> simp [hvector]
      mem := by
        rw [hpartnersOf]
        split <;> simp [hitem'] }
  have hsim : sim.Total := fun _ _ _ => rfl
  have hrun := run_buildMatrix (t := ⟨1, -1.0⟩) (j := .start 3) hsim hscorable
  exact ⟨_, _, hrun, symmetric_of_run rfl hrun⟩

end Strategy

end ItemNeighbors
