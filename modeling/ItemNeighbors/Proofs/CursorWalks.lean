import ItemNeighbors.Proofs.CommonKeys

/-!
# What the cursors of a join visit

No cursor of a join leaves its vector: a walk that checks each of its reads, and may take as many
rounds as both vectors have entries, finds the same. What it finds are the values of the common
keys, in their order, whether it keeps them in pairs or adds up the products.

- `SparseVector.walk?`: a join with checked reads, whatever it does with the values.
- `SparseVector.walk?_eq`: it comes to its end and takes the pairs of the join.
- `SparseVector.map_some_coEntries`: the join, by look-ups of the common keys.
- `SparseVector.joins_visit_common_keys`: what both joins give, and that they give it.
-/

namespace ItemNeighbors

namespace SparseVector

variable {a b : SparseVector} {i j : ℕ}

/-- A join that takes the values of common keys in and checks each read, in a limited number of
rounds. It gives nothing if the rounds do not suffice, or if it reads a key or a value where there
is none. -/
def walk? {σ : Type} (take : σ → Float × Float → σ) (a b : SparseVector) :
    (rounds i j : ℕ) → σ → Option σ
  | 0, i, j, s => if i < a.size ∧ j < b.size then none else some s
  | rounds + 1, i, j, s =>
    if i < a.size ∧ j < b.size then do
      let key ← a.keys[i]?
      let key' ← b.keys[j]?
      if key < key' then walk? take a b rounds (i + 1) j s
      else if key' < key then walk? take a b rounds i (j + 1) s
      else do
        let value ← a.values[i]?
        let value' ← b.values[j]?
        walk? take a b rounds (i + 1) (j + 1) (take s (value, value'))
    else some s

theorem getElem?_keys (h : i < a.entries.size) : a.keys[i]? = some a.entries[i].1 := by
  simp [keys, toList, h]

theorem getElem?_values (h : i < a.entries.size) : a.values[i]? = some a.entries[i].2 := by
  simp [values, toList, h]

/-- At the end of either vector a walk stops, however many rounds are left. -/
theorem walk?_of_end {σ : Type} (take : σ → Float × Float → σ)
    (h : ¬ (i < a.size ∧ j < b.size)) (rounds : ℕ) (s : σ) :
    walk? take a b rounds i j s = some s := by
  cases rounds with
  | zero => rw [walk?, if_neg h]
  | succ rounds => rw [walk?, if_neg h]

/-- One round of a walk: both keys are there to be read, and the values if they are needed. -/
theorem walk?_succ {σ : Type} (take : σ → Float × Float → σ) (hi : i < a.entries.size)
    (hj : j < b.entries.size) (rounds : ℕ) (s : σ) :
    walk? take a b (rounds + 1) i j s =
      if a.entries[i].1 < b.entries[j].1 then walk? take a b rounds (i + 1) j s
      else if b.entries[j].1 < a.entries[i].1 then walk? take a b rounds i (j + 1) s
      else walk? take a b rounds (i + 1) (j + 1) (take s (a.entries[i].2, b.entries[j].2)) := by
  have hin : i < a.size ∧ j < b.size := ⟨hi, hj⟩
  rw [walk?, if_pos hin, getElem?_keys hi, getElem?_keys hj, getElem?_values hi,
    getElem?_values hj]
  rfl

/-- **A walk comes to its end and takes in what the join finds**, if it may take a round for each
entry that is left. -/
theorem walk?_eq {σ : Type} (take : σ → Float × Float → σ) (s : σ) {rounds : ℕ}
    (found : Array (Float × Float))
    (h : (a.entries.size - i) + (b.entries.size - j) ≤ rounds) :
    walk? take a b rounds i j (found.toList.foldl take s) =
      some ((coEntriesFrom a.entries b.entries i j found).toList.foldl take s) := by
  fun_induction coEntriesFrom a.entries b.entries i j found generalizing rounds with
  | case1 i j found hin hlt ih =>
    obtain ⟨rest, rfl⟩ : ∃ rest, rounds = rest + 1 := ⟨rounds - 1, by omega⟩
    rw [walk?_succ take hin.1 hin.2, if_pos hlt]
    exact ih (by omega)
  | case2 i j found hin hlt hgt ih =>
    obtain ⟨rest, rfl⟩ : ∃ rest, rounds = rest + 1 := ⟨rounds - 1, by omega⟩
    rw [walk?_succ take hin.1 hin.2, if_neg hlt, if_pos hgt]
    exact ih (by omega)
  | case3 i j found hin hlt hgt ih =>
    obtain ⟨rest, rfl⟩ : ∃ rest, rounds = rest + 1 := ⟨rounds - 1, by omega⟩
    have hrest : walk? take a b rest (i + 1) (j + 1) _ = _ := ih (by omega)
    rw [Array.toList_push, List.foldl_concat] at hrest
    rw [walk?_succ take hin.1 hin.2, if_neg hlt, if_neg hgt]
    exact hrest
  | case4 i j found hend => exact walk?_of_end take hend rounds _

/-- A walk from the start needs no more rounds than both vectors have entries. -/
theorem walk?_zero {σ : Type} (take : σ → Float × Float → σ) (a b : SparseVector) (s : σ)
    (spare : ℕ) : walk? take a b (a.size + b.size + spare) 0 0 s =
      some ((a.coEntries b).foldl take s) :=
  walk?_eq take s #[] (by simp only [size]; omega)

/-- The pairs of the join are the values that look-ups find for the common keys. -/
theorem map_some_coEntries (a b : SparseVector) :
    (a.coEntries b).map (fun pair => (some pair.1, some pair.2)) =
      (a.commonKeys b).map fun key => (a.get? key, b.get? key) := by
  have hkeys : (a.commonKeys b).map (fun key => (a.get? key, b.get? key)) =
      a.toList.filterMap fun entry =>
        if entry.1 ∈ b.keys then some (a.get? entry.1, b.get? entry.1) else none := by
    show ((a.toList.map (·.1)).filter (· ∈ b.keys)).map _ = _
    rw [List.filter_map, List.map_map, ← List.filterMap_eq_map, List.filterMap_filter]
    simp
  rw [hkeys, coEntries_eq, List.map_filterMap]
  refine List.filterMap_congr fun entry hentry => ?_
  have hvalue : a.get? entry.1 = some entry.2 := get?_eq_some_iff.mpr hentry
  rw [hvalue]
  cases hother : b.get? entry.1 with
  | none => simp [mem_keys_iff, hother]
  | some value => simp [mem_keys_iff, hother]

theorem mem_commonKeys_iff {key : UInt64} :
    key ∈ a.commonKeys b ↔ a.containsKey key = true ∧ b.containsKey key = true := by
  rw [commonKeys, List.mem_filter, decide_eq_true_iff, containsKey_iff, containsKey_iff]

theorem pairwise_commonKeys (a b : SparseVector) : (a.commonKeys b).Pairwise (· < ·) :=
  a.pairwise_keys.filter _

/-- **Both joins visit the common keys and nothing else.** For all vectors, the pairs of the join
are the values that look-ups find for the keys that both contain, each key once and in ascending
order. In the other direction the values of each pair are swapped, and the inner product adds up
the products of the pairs from a positive zero on. Both are found within as many rounds as the
vectors have entries, with no read outside them. -/
theorem joins_visit_common_keys (a b : SparseVector) :
    (a.coEntries b).map (fun pair => (some pair.1, some pair.2)) =
        (a.commonKeys b).map (fun key => (a.get? key, b.get? key)) ∧
      (a.commonKeys b).Pairwise (· < ·) ∧
      (∀ key, key ∈ a.commonKeys b ↔ a.containsKey key = true ∧ b.containsKey key = true) ∧
      b.coEntries a = (a.coEntries b).map Prod.swap ∧
      a.dot b = (a.coEntries b).foldl (fun sum pair => sum + pair.1 * pair.2) 0.0 ∧
      ∀ spare : ℕ,
        walk? Array.push a b (a.size + b.size + spare) 0 0 #[] =
            some (a.coEntries b).toArray ∧
          walk? (fun sum pair => sum + pair.1 * pair.2) a b (a.size + b.size + spare) 0 0 0.0 =
            some (a.dot b) := by
  refine ⟨map_some_coEntries a b, pairwise_commonKeys a b, fun key => mem_commonKeys_iff,
    coEntries_swap a b, dot_eq_foldl a b, fun spare => ⟨?_, ?_⟩⟩
  · rw [walk?_zero, List.foldl_push_eq_append', Array.empty_append]
  · rw [walk?_zero, dot_eq_foldl]

end SparseVector

end ItemNeighbors
