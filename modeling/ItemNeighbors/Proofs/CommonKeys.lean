import Mathlib.Data.List.Basic
import ItemNeighbors.Proofs.Lookups
import ItemNeighbors.Proofs.ScoreOrder
import ItemNeighbors.SparseVector.Join

/-!
# What the cursors of a join find

The cursors of a join stop together exactly at the keys that both vectors have. The two joins move
their cursors alike: where one keeps a pair of values the other adds their product. So the inner
product is a sum over the pairs of the join, and what was found out about the pairs holds of the
products.

- `SparseVector.commonKeys`: the keys that two vectors share.
- `SparseVector.joined`, `SparseVector.toList_coEntriesFrom`: what a walk of the cursors finds.
- `SparseVector.coEntries_eq`, `SparseVector.length_coEntries`: the join, by look-ups.
- `SparseVector.coEntries_swap`, `SparseVector.dot_comm`: joins in both directions.
- `SparseVector.dot_eq_foldl`: the inner product over the pairs of the join.
-/

namespace ItemNeighbors

namespace SparseVector

/-- The keys that two vectors have in common, in ascending order. -/
def commonKeys (a b : SparseVector) : List UInt64 :=
  a.keys.filter (· ∈ b.keys)

/-- In entries with ascending keys the look-up of a key finds its entry. -/
theorem lookup_eq_some_iff_mem {l : List Entry} (h : l.Pairwise (·.1 < ·.1)) {key : UInt64}
    {value : Float} : l.lookup key = some value ↔ (key, value) ∈ l := by
  induction l with
  | nil => simp
  | cons entry l ih =>
    obtain ⟨hentry, hl⟩ := List.pairwise_cons.mp h
    obtain ⟨key', value'⟩ := entry
    rw [List.lookup_cons, List.mem_cons, Prod.mk.injEq]
    by_cases hkey : key = key'
    · subst hkey
      -- the rest has no second entry of this key
      have hrest : (key, value) ∉ l := fun hmem =>
        UInt64.lt_irrefl key (hentry (key, value) hmem)
      simp [hrest, eq_comm]
    · simp [hkey, ih hl, beq_false_of_ne hkey]

theorem get?_eq_lookup (v : SparseVector) (key : UInt64) : v.get? key = v.toList.lookup key :=
  Option.ext fun _ => get?_eq_some_iff.trans (lookup_eq_some_iff_mem v.ascending).symm

/-! ## The walk of the cursors -/

/-- The values of two lists of entries for the keys that are in both, in the order of the first. -/
def joined (xs ys : List Entry) : List (Float × Float) :=
  xs.filterMap fun x => (ys.lookup x.1).map (x.2, ·)

variable {x y : Entry} {xs ys : List Entry}

theorem joined_nil (xs : List Entry) : joined xs [] = [] := by
  simp [joined]

/-- A key below those of the other side is passed over. -/
theorem joined_cons_of_lt (h : ∀ y ∈ ys, x.1 < y.1) : joined (x :: xs) ys = joined xs ys := by
  have hnone : ys.lookup x.1 = none :=
    List.lookup_eq_none_iff.mpr fun y hy => by simpa using UInt64.ne_of_lt (h y hy)
  rw [joined, List.filterMap_cons_none (by rw [hnone, Option.map_none]), joined]

theorem lookup_cons_of_ne {key : UInt64} (h : key ≠ y.1) :
    (y :: ys).lookup key = ys.lookup key := by
  rw [List.lookup_cons, beq_false_of_ne h]

theorem joined_cons_right_of_lt (h : ∀ x ∈ xs, y.1 < x.1) : joined xs (y :: ys) = joined xs ys :=
  List.filterMap_congr fun x hx => by rw [lookup_cons_of_ne (UInt64.ne_of_lt (h x hx)).symm]

/-- A common key is found. -/
theorem joined_cons_cons (heq : x.1 = y.1) (h : ∀ x' ∈ xs, x.1 < x'.1) :
    joined (x :: xs) (y :: ys) = (x.2, y.2) :: joined xs ys := by
  have hfound : (y :: ys).lookup x.1 = some y.2 := by
    rw [heq, List.lookup_cons_self]
  rw [joined, List.filterMap_cons_some (by rw [hfound, Option.map_some]), ← joined,
    joined_cons_right_of_lt (heq ▸ h)]

/-- The entries of an array from a position on, which is inside. -/
theorem drop_eq_cons {a : Array Entry} {i : Nat} (h : i < a.size) :
    a.toList.drop i = a[i] :: a.toList.drop (i + 1) := by
  rw [List.drop_eq_getElem_cons (by simpa using h), Array.getElem_toList]

/-- **What a walk of two cursors finds.** From two positions on it adds the values of the common
keys of what is left. -/
theorem toList_coEntriesFrom {a b : Array Entry} (ha : a.toList.Pairwise (·.1 < ·.1))
    (hb : b.toList.Pairwise (·.1 < ·.1)) (i j : Nat) (found : Array (Float × Float)) :
    (coEntriesFrom a b i j found).toList =
      found.toList ++ joined (a.toList.drop i) (b.toList.drop j) := by
  -- the key under each cursor is below all that its side still has to come
  have hrestA : ∀ i (h : i < a.size), ∀ x ∈ a.toList.drop (i + 1), a[i].1 < x.1 := fun i h =>
    (List.pairwise_cons.mp (drop_eq_cons h ▸ ha.drop)).1
  have hrestB : ∀ j (h : j < b.size), ∀ y ∈ b.toList.drop (j + 1), b[j].1 < y.1 := fun j h =>
    (List.pairwise_cons.mp (drop_eq_cons h ▸ hb.drop)).1
  fun_induction coEntriesFrom a b i j found with
  | case1 i j found h hlt ih =>
    have hbelow : ∀ y ∈ b.toList.drop j, a[i].1 < y.1 := by
      rw [drop_eq_cons h.2, List.forall_mem_cons]
      exact ⟨hlt, fun y hy => UInt64.lt_trans hlt (hrestB j h.2 y hy)⟩
    rw [ih, drop_eq_cons h.1, joined_cons_of_lt hbelow]
  | case2 i j found h hlt hgt ih =>
    have hbelow : ∀ x ∈ a.toList.drop i, b[j].1 < x.1 := by
      rw [drop_eq_cons h.1, List.forall_mem_cons]
      exact ⟨hgt, fun x hx => UInt64.lt_trans hgt (hrestA i h.1 x hx)⟩
    rw [ih, drop_eq_cons h.2, joined_cons_right_of_lt hbelow]
  | case3 i j found h hlt hgt ih =>
    have heq : a[i].1 = b[j].1 :=
      UInt64.le_antisymm (UInt64.not_lt.mp hgt) (UInt64.not_lt.mp hlt)
    rw [ih, drop_eq_cons h.1, drop_eq_cons h.2, joined_cons_cons heq (hrestA i h.1),
      Array.toList_push, List.append_assoc, List.singleton_append]
  | case4 i j found h =>
    -- one side has come to its end
    rcases Nat.lt_or_ge i a.size with hi | hi
    · have hj : b.toList.length ≤ j := by simpa using Nat.le_of_not_lt fun hj => h ⟨hi, hj⟩
      rw [List.drop_eq_nil_of_le hj, joined_nil, List.append_nil]
    · have hi : a.toList.length ≤ i := by simpa using hi
      rw [List.drop_eq_nil_of_le hi, joined, List.filterMap_nil, List.append_nil]

/-- The join of two vectors, by look-ups in the second one. -/
theorem coEntries_eq (a b : SparseVector) :
    a.coEntries b = a.toList.filterMap fun entry => (b.get? entry.1).map (entry.2, ·) := by
  rw [coEntries, toList_coEntriesFrom a.ascending b.ascending]
  simp only [get?_eq_lookup]
  rfl

/-- The join has one pair for each common key. -/
theorem length_coEntries (a b : SparseVector) :
    (a.coEntries b).length = (a.commonKeys b).length := by
  rw [coEntries_eq, List.length_filterMap_eq_countP, commonKeys, ← List.countP_eq_length_filter]
  show _ = (a.toList.map (·.1)).countP _
  rw [List.countP_map]
  refine List.countP_congr fun entry _ => ?_
  simp [mem_keys_iff, Option.isSome_iff_exists]

/-! ## Both directions -/

theorem coEntriesFrom_swap (a b : Array Entry) (i j : Nat) (found : Array (Float × Float)) :
    (coEntriesFrom a b i j found).map Prod.swap = coEntriesFrom b a j i (found.map Prod.swap) := by
  fun_induction coEntriesFrom a b i j found with
  | case1 i j found h hlt ih =>
    rw [ih]
    conv => rhs; unfold coEntriesFrom
    rw [dif_pos h.symm, if_neg (UInt64.lt_asymm hlt), if_pos hlt]
  | case2 i j found h hlt hgt ih =>
    rw [ih]
    conv => rhs; unfold coEntriesFrom
    rw [dif_pos h.symm, if_pos hgt]
  | case3 i j found h hlt hgt ih =>
    rw [ih, Array.map_push]
    conv => rhs; unfold coEntriesFrom
    rw [dif_pos h.symm, if_neg hgt, if_neg hlt]
    rfl
  | case4 i j found h =>
    conv => rhs; unfold coEntriesFrom
    rw [dif_neg fun h' => h h'.symm]

/-- Joining in the other direction swaps the values of each pair. -/
theorem coEntries_swap (a b : SparseVector) :
    b.coEntries a = (a.coEntries b).map Prod.swap := by
  rw [coEntries, coEntries, ← Array.toList_map, coEntriesFrom_swap, Array.map_empty]

/-! ## The inner product -/

/-- The cursors of both joins move alike. -/
theorem dotFrom_eq_foldl (a b : Array Entry) (i j : ℕ) (found : Array (Float × Float))
    (s : Float) :
    dotFrom a b i j (found.toList.foldl (fun sum pair => sum + pair.1 * pair.2) s) =
      (coEntriesFrom a b i j found).toList.foldl (fun sum pair => sum + pair.1 * pair.2) s := by
  fun_induction coEntriesFrom a b i j found with
  | case1 i j found h hlt ih => rw [dotFrom, dif_pos h, if_pos hlt, ih]
  | case2 i j found h hlt hgt ih => rw [dotFrom, dif_pos h, if_neg hlt, if_pos hgt, ih]
  | case3 i j found h hlt hgt ih =>
    rw [dotFrom, dif_pos h, if_neg hlt, if_neg hgt, ← ih, Array.toList_push, List.foldl_concat]
  | case4 i j found h => rw [dotFrom, dif_neg h]

/-- The inner product adds up the products of the pairs of the join, in their order. -/
theorem dot_eq_foldl (a b : SparseVector) :
    a.dot b = (a.coEntries b).foldl (fun sum pair => sum + pair.1 * pair.2) 0.0 :=
  dotFrom_eq_foldl a.entries b.entries 0 0 #[] 0.0

/-- The inner product is symmetric: the join finds the same pairs, and only products commute. -/
theorem dot_comm (a b : SparseVector) : a.dot b = b.dot a := by
  rw [dot_eq_foldl, dot_eq_foldl, coEntries_swap a b, List.foldl_map]
  simp only [Prod.fst_swap, Prod.snd_swap, Score.mul_comm]

/-- Vectors without a common key have inner product positive zero. -/
theorem dot_of_disjoint {a b : SparseVector} (h : ∀ key ∈ a.keys, key ∉ b.keys) :
    a.dot b = 0.0 := by
  have hkeys : a.commonKeys b = [] :=
    List.filter_eq_nil_iff.mpr fun key hkey => by simp [h key hkey]
  have hnone : a.coEntries b = [] := by
    rw [← List.length_eq_zero_iff, length_coEntries, hkeys, List.length_nil]
  rw [dot_eq_foldl, hnone, List.foldl_nil]

end SparseVector

end ItemNeighbors
