import Mathlib.Data.Finset.Card
import ItemNeighbors.Proofs.Lookups
import ItemNeighbors.SimilarityMatrix

/-!
# Ranks in item sets

The set of a list is the one ascending arrangement of its ids. So it does not depend on the order
and the repetitions of the list, and where an id stands in it is the number of smaller ids. The rows
of a matrix are found by this number.

- `ItemSet.countP_lt_getElem`, `ItemSet.map_countP_lt`: in ascending order, as many ids are smaller
  as come before.
- `ItemSet.rankIn`: the number of smaller ids in a list, each counted once.
- `ItemSet.ofList_eq_ofList_iff`: lists with the same members make the same set.
- `ItemSet.arranges_list`: what the set of a list is and what its look-ups answer.
-/

namespace ItemNeighbors

namespace ItemSet

variable {l : List ItemId} {x : ItemId}

/-! ## Positions in ascending order -/

/-- In ascending order an id has as many smaller ones as come before it. -/
theorem countP_lt_getElem (h : l.Pairwise (· < ·)) (p : Nat) (hp : p < l.length) :
    l.countP (· < l[p]) = p := by
  induction l generalizing p with
  | nil => exact absurd hp (Nat.not_lt_zero p)
  | cons a l ih =>
    obtain ⟨ha, hl⟩ := List.pairwise_cons.mp h
    cases p with
    | zero =>
      refine List.countP_eq_zero.mpr fun b hb => ?_
      rcases List.mem_cons.mp hb with rfl | hb
      · simp
      · simpa using UInt64.le_of_lt (ha b hb)
    | succ p =>
      have hp : p < l.length := Nat.lt_of_succ_lt_succ hp
      have hlt : a < l[p] := ha _ (List.getElem_mem hp)
      rw [List.getElem_cons_succ, List.countP_cons_of_pos (by simpa using hlt), ih hl p hp]

/-- In ascending order the numbers of smaller ids count up from zero. -/
theorem map_countP_lt (h : l.Pairwise (· < ·)) :
    l.map (fun x => l.countP (· < x)) = List.range l.length := by
  refine List.ext_getElem (by simp) fun p hp _ => ?_
  rw [List.getElem_map, List.getElem_range]
  exact countP_lt_getElem h p (by simpa using hp)

/-! ## Ranks -/

/-- How many ids of a list are smaller, each counted once. -/
def rankIn (l : List ItemId) (x : ItemId) : Nat :=
  (l.filter (· < x)).toFinset.card

theorem rankIn_eq_countP (l : List ItemId) (x : ItemId) :
    rankIn l x = (ofList l).toList.countP (· < x) := by
  have hsame : (l.filter (· < x)).toFinset = ((ofList l).toList.filter (· < x)).toFinset := by
    ext y
    simp
  rw [rankIn, hsame, List.toFinset_card_of_nodup ((nodup_toList _).filter _),
    List.countP_eq_length_filter]

/-- A position is found for an id exactly if the id is in the list and this is its rank. -/
theorem indexOf?_ofList_eq_some_iff {p : Nat} :
    (ofList l).indexOf? x = some p ↔ x ∈ l ∧ p = rankIn l x := by
  have hrank : ∀ q, (ofList l).indexOf? x = some q → q = rankIn l x := by
    intro q hq
    obtain ⟨hlt, rfl⟩ := indexOf?_eq_some_iff.mp hq
    rw [rankIn_eq_countP]
    exact (countP_lt_getElem (toList_pairwise _) q hlt).symm
  constructor
  · intro h
    obtain ⟨hlt, rfl⟩ := indexOf?_eq_some_iff.mp h
    exact ⟨mem_ids_ofList.mp (by simp), hrank p h⟩
  · rintro ⟨hx, rfl⟩
    obtain ⟨q, hq⟩ := Option.isSome_iff_exists.mp (contains_iff.mpr (mem_toList_ofList.mpr hx))
    rw [hq, hrank q hq]

/-- Lists with the same members make the same set. -/
theorem ofList_eq_ofList_iff {l' : List ItemId} :
    ofList l = ofList l' ↔ ∀ x, x ∈ l ↔ x ∈ l' := by
  constructor
  · intro h x
    rw [← mem_toList_ofList, h, mem_toList_ofList]
  · intro h
    refine ext_mem fun x => ?_
    rw [mem_toList_ofList, mem_toList_ofList]
    exact h x

/-- **The set of a list is the list in ascending order, each id once**, and an id stands where its
rank says, as does its row in a matrix over this set. Nothing else about the list can be told from
the set. -/
theorem arranges_list (l : List ItemId) :
    (ofList l).toList.Pairwise (· < ·) ∧
      (∀ x, x ∈ (ofList l).toList ↔ x ∈ l) ∧
      (∀ x, (ofList l).contains x = true ↔ x ∈ l) ∧
      (∀ x p, (ofList l).indexOf? x = some p ↔ x ∈ l ∧ p = rankIn l x) ∧
      (∀ x ∈ l, (ofList l).toList[rankIn l x]? = some x) ∧
      (∀ m : SimilarityMatrix, m.items = ofList l →
        ∀ x ∈ l, m.neighbors? x = m.rows[rankIn l x]?.map Array.toList) ∧
      ∀ l', ofList l = ofList l' ↔ ∀ x, x ∈ l ↔ x ∈ l' := by
  refine ⟨toList_pairwise _, fun x => mem_toList_ofList, fun x => ?_, fun x p => ?_,
    fun x hx => ?_, fun m hm x hx => ?_, fun l' => ofList_eq_ofList_iff⟩
  · rw [contains_iff, mem_toList_ofList]
  · exact indexOf?_ofList_eq_some_iff
  · obtain ⟨hlt, hid⟩ := indexOf?_eq_some_iff.mp (indexOf?_ofList_eq_some_iff.mpr ⟨hx, rfl⟩)
    rw [toList, Array.getElem?_toList, Array.getElem?_eq_getElem hlt, hid]
  · have hindex : m.items.indexOf? x = some (rankIn l x) := by
      rw [hm]
      exact indexOf?_ofList_eq_some_iff.mpr ⟨hx, rfl⟩
    rw [SimilarityMatrix.neighbors?, hindex, Option.bind_some]

end ItemSet

end ItemNeighbors
