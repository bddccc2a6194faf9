import Mathlib.Data.List.Induction
import ItemNeighbors.ItemSet
import ItemNeighbors.SparseVector.Accumulator

/-!
# Sets and vectors by what they answer

An item set is determined by its members, a sparse vector by its look-ups. So two ways of making
one agree as soon as they answer alike.

- `ItemSet.ext_mem`: sets with the same members are equal.
- `SparseVector.ext_get?`: vectors with the same look-ups are equal.
- `SparseVector.get?_ofPairs`: in the vector of a list of pairs the last pair of a key counts.
- `RatingAccumulator.get?_freeze`: freezing keeps every look-up.
-/

namespace ItemNeighbors

/-- Lists in ascending order with the same members are equal. -/
theorem eq_of_pairwise_of_mem_iff {α : Type} {r : α → α → Prop} (hr : ∀ a b, r a b → ¬ r b a)
    {l₁ l₂ : List α} (h₁ : l₁.Pairwise r) (h₂ : l₂.Pairwise r) (h : ∀ x, x ∈ l₁ ↔ x ∈ l₂) :
    l₁ = l₂ := by
  have hne : ∀ {a b}, r a b → a ≠ b := by
    rintro a _ hab rfl
    exact hr a a hab hab
  have hperm : l₁.Perm l₂ := (List.perm_ext_iff_of_nodup (h₁.imp hne) (h₂.imp hne)).mpr h
  exact hperm.eq_of_pairwise (fun a b _ _ hab hba => absurd hba (hr a b hab)) h₁ h₂

/-- A search from the end looks at the last element first. -/
theorem findRev?_concat {α : Type} (p : α → Bool) (l : List α) (a : α) :
    (l ++ [a]).findRev? p = if p a then some a else l.findRev? p := by
  rw [List.findRev?_eq_find?_reverse, List.findRev?_eq_find?_reverse, List.reverse_append,
    List.reverse_singleton, List.singleton_append, List.find?_cons]
  cases p a <;> rfl

theorem findRev?_map {α β : Type} (f : α → β) (p : β → Bool) (l : List α) :
    (l.map f).findRev? p = (l.findRev? (p ∘ f)).map f := by
  rw [List.findRev?_eq_find?_reverse, List.findRev?_eq_find?_reverse, ← List.map_reverse,
    List.find?_map]

theorem findRev?_filter {α : Type} (q p : α → Bool) (l : List α) :
    (l.filter q).findRev? p = l.findRev? fun a => q a && p a := by
  induction l using List.reverseRecOn with
  | nil => rfl
  | append_singleton l a ih =>
    rw [List.filter_append, findRev?_concat, List.filter_cons, List.filter_nil]
    cases hq : q a with
    | false => simp only [Bool.false_eq_true, if_false, List.append_nil, ih, Bool.false_and]
    | true => simp only [if_true, findRev?_concat, ih, Bool.true_and]

namespace ItemSet

theorem toList_pairwise (s : ItemSet) : s.toList.Pairwise (· < ·) := s.ascending

theorem nodup_toList (s : ItemSet) : s.toList.Nodup :=
  s.ascending.imp UInt64.ne_of_lt

@[simp] theorem mem_toList_ofList {l : List ItemId} {x : ItemId} :
    x ∈ (ofList l).toList ↔ x ∈ l := mem_ids_ofList

/-- Ascending lists of items with the same members are equal. -/
theorem list_ext {l₁ l₂ : List ItemId} (h₁ : l₁.Pairwise (· < ·)) (h₂ : l₂.Pairwise (· < ·))
    (h : ∀ x, x ∈ l₁ ↔ x ∈ l₂) : l₁ = l₂ :=
  eq_of_pairwise_of_mem_iff (fun _ _ hab hba => UInt64.lt_asymm hab hba) h₁ h₂ h

/-- Sets with the same members are equal. -/
theorem ext_mem {s₁ s₂ : ItemSet} (h : ∀ x, x ∈ s₁.toList ↔ x ∈ s₂.toList) : s₁ = s₂ := by
  have hlist : s₁.ids.toList = s₂.ids.toList := list_ext s₁.ascending s₂.ascending h
  cases s₁
  cases s₂
  simpa only [mk.injEq, Array.toList_inj] using hlist

end ItemSet

namespace SparseVector

theorem mem_keys_iff {v : SparseVector} {key : UInt64} :
    key ∈ v.keys ↔ ∃ value, v.get? key = some value := by
  simp only [keys, List.mem_map, get?_eq_some_iff]
  constructor
  · rintro ⟨⟨_, value⟩, hmem, rfl⟩
    exact ⟨value, hmem⟩
  · rintro ⟨value, hmem⟩
    exact ⟨(key, value), hmem, rfl⟩

/-- A key is stored exactly if the look-up finds a value. -/
theorem containsKey_eq_isSome (v : SparseVector) (key : UInt64) :
    v.containsKey key = (v.get? key).isSome := by
  rw [containsKey, get?]
  rcases hindex : v.indexOf? key with _ | p
  · rfl
  · obtain ⟨hp, -⟩ := (keyIndex?_eq_some_iff (fun e : Entry => e.1) v.getElem_lt).mp hindex
    simp [hp]

theorem containsKey_iff {v : SparseVector} {key : UInt64} :
    v.containsKey key = true ↔ key ∈ v.keys := by
  rw [containsKey_eq_isSome, Option.isSome_iff_exists, mem_keys_iff]

theorem pairwise_keys (v : SparseVector) : v.keys.Pairwise (· < ·) :=
  List.pairwise_map.mpr v.ascending

theorem nodup_keys (v : SparseVector) : v.keys.Nodup :=
  v.pairwise_keys.imp UInt64.ne_of_lt

/-- Vectors with the same look-ups are equal. -/
theorem ext_get? {a b : SparseVector} (h : ∀ key, a.get? key = b.get? key) : a = b := by
  have hlist : a.entries.toList = b.entries.toList := by
    refine eq_of_pairwise_of_mem_iff (fun _ _ hab hba => UInt64.lt_asymm hab hba)
      a.ascending b.ascending ?_
    rintro ⟨key, value⟩
    show (key, value) ∈ a.toList ↔ (key, value) ∈ b.toList
    rw [← get?_eq_some_iff, ← get?_eq_some_iff, h]
  cases a
  cases b
  simpa only [mk.injEq, Array.toList_inj] using hlist

@[simp] theorem get?_empty (key : UInt64) : (∅ : SparseVector).get? key = none := by
  rw [Option.eq_none_iff_forall_ne_some]
  intro value hvalue
  exact List.not_mem_nil (get?_eq_some_iff.mp hvalue)

/-! ## The vector of a list of pairs -/

/-- A push drops the entries of the same key and appends. -/
theorem toList_pushLast {entries : Array Entry} {entry : Entry}
    (h : entries.toList.Pairwise (·.1 < ·.1)) (hle : ∀ a ∈ entries.toList, a.1 ≤ entry.1) :
    (pushLast entries entry).toList = entries.toList.filter (·.1 != entry.1) ++ [entry] := by
  unfold pushLast
  rcases hback : entries.back? with _ | last
  · have hnil : entries.toList = [] := by
      rw [← Array.getLast?_toList] at hback
      exact List.getLast?_eq_none_iff.mp hback
    simp [hnil]
  · obtain ⟨front, hfront⟩ : ∃ front, entries.toList = front ++ [last] := by
      rw [← Array.getLast?_toList] at hback
      exact List.getLast?_eq_some_iff.mp hback
    rw [hfront] at h hle
    have hbelow : ∀ a ∈ front, a.1 < last.1 := fun a ha =>
      (List.pairwise_append.mp h).2.2 a ha last (by simp)
    have hlast : last.1 ≤ entry.1 := hle last (by simp)
    -- only the last entry can have the key of the new one
    have hkeep : front.filter (·.1 != entry.1) = front :=
      List.filter_eq_self.mpr fun a ha => by
        simpa using UInt64.ne_of_lt (UInt64.lt_of_lt_of_le (hbelow a ha) hlast)
    dsimp only
    split
    · rename_i hsame
      simp [hfront, hkeep, hsame]
    · rename_i hdiff
      simp [hfront, hkeep, hdiff]

/-- Collapsing a list whose keys ascend keeps, of each key, the last pair. -/
theorem mem_foldl_pushLast {l : List Entry} (hl : l.Pairwise (·.1 ≤ ·.1)) {x : Entry} :
    x ∈ (l.foldl pushLast #[]).toList ↔ l.findRev? (·.1 == x.1) = some x := by
  induction l using List.reverseRecOn generalizing x with
  | nil => simp
  | append_singleton l e ih =>
    obtain ⟨hl, -, hle⟩ := List.pairwise_append.mp hl
    have hpush : ∀ a ∈ (l.foldl pushLast #[]).toList, a.1 ≤ e.1 := by
      intro a ha
      have hfound := (ih hl).mp ha
      rw [List.findRev?_eq_find?_reverse] at hfound
      exact hle a (List.mem_reverse.mp (List.mem_of_find?_eq_some hfound)) e (by simp)
    rw [List.foldl_append, List.foldl_cons, List.foldl_nil,
      toList_pushLast (foldl_pushLast_ascending (by simp) hl (by simp)) hpush,
      List.mem_append, List.mem_filter, ih hl, findRev?_concat]
    simp only [List.mem_singleton, bne_iff_ne, beq_iff_eq]
    by_cases hkey : e.1 = x.1
    · simp [hkey, eq_comm]
    · have hne : x ≠ e := by
        rintro rfl
        exact hkey rfl
      simp [hkey, hne, Ne.symm hkey]

/-- Sorting by key is stable: the pairs of one key stay as they are. -/
theorem filter_sortedByKey (pairs : List Entry) (key : UInt64) :
    (sortedByKey pairs).filter (·.1 == key) = pairs.filter (·.1 == key) := by
  have hsub : (pairs.filter (·.1 == key)).Sublist (sortedByKey pairs) := by
    refine List.sublist_mergeSort ?_ ?_ ?_ List.filter_sublist
    · intro a b c hab hbc
      simp only [decide_eq_true_eq] at *
      exact UInt64.le_trans hab hbc
    · intro a b
      simpa using UInt64.le_total a.1 b.1
    · refine List.pairwise_filter.mpr (List.pairwise_of_forall ?_)
      intro a b ha hb
      simp only [beq_iff_eq] at ha hb
      simp [ha, hb]
  have hfilter := hsub.filter (·.1 == key)
  rw [List.filter_filter] at hfilter
  simp only [Bool.and_self] at hfilter
  refine (hfilter.eq_of_length ?_).symm
  exact ((List.mergeSort_perm pairs _).filter _).length_eq.symm

/-- Look-up in the vector of a list of pairs finds the last pair of the key. -/
theorem get?_ofPairs (pairs : List Entry) (key : UInt64) :
    (ofPairs pairs).get? key = (pairs.findRev? (·.1 == key)).map (·.2) := by
  have hstable : (sortedByKey pairs).findRev? (·.1 == key) = pairs.findRev? (·.1 == key) := by
    simp only [List.findRev?_eq_find?_reverse, ← List.getLast?_filter, filter_sortedByKey]
  have hmem : ∀ value, (ofPairs pairs).get? key = some value ↔
      pairs.findRev? (·.1 == key) = some (key, value) := by
    intro value
    rw [get?_eq_some_iff, ← hstable]
    exact mem_foldl_pushLast (pairwise_sortedByKey pairs)
  refine Option.ext fun value => ?_
  rw [hmem, Option.map_eq_some_iff]
  constructor
  · exact fun h => ⟨(key, value), h, rfl⟩
  · rintro ⟨⟨k, w⟩, h, rfl⟩
    have hk : k = key := by
      rw [List.findRev?_eq_find?_reverse] at h
      simpa using List.find?_some h
    rw [h, hk]

/-- A search among the entries of a vector is a look-up. -/
theorem findRev?_toList (v : SparseVector) (key : UInt64) :
    (v.toList.findRev? (·.1 == key)).map (·.2) = v.get? key := by
  rw [List.findRev?_eq_find?_reverse]
  cases hfind : v.toList.reverse.find? (·.1 == key) with
  | none =>
    rw [List.find?_eq_none] at hfind
    symm
    rw [Option.map_none, Option.eq_none_iff_forall_ne_some]
    intro value hvalue
    exact hfind (key, value) (List.mem_reverse.mpr (get?_eq_some_iff.mp hvalue)) (by simp)
  | some entry =>
    have hkey : entry.1 = key := by simpa using List.find?_some hfind
    have hmem : entry ∈ v.toList := List.mem_reverse.mp (List.mem_of_find?_eq_some hfind)
    rw [Option.map_some]
    exact (get?_eq_some_iff.mpr (hkey ▸ hmem)).symm

/-- A vector is the vector of its entries. -/
theorem ofPairs_toList (v : SparseVector) : ofPairs v.toList = v := by
  apply ext_get?
  intro key
  rw [get?_ofPairs, findRev?_toList]

end SparseVector

namespace RatingAccumulator

/-- Freezing keeps every look-up. -/
theorem get?_freeze (acc : RatingAccumulator) (user : UserId) :
    acc.freeze.get? user = acc[user]? := by
  refine Option.ext fun value => ?_
  rw [SparseVector.get?_eq_some_iff, ← Std.HashMap.mem_toList_iff_getElem?_eq_some]
  simp [freeze, SparseVector.toList, SparseVector.sortedByKey]

end RatingAccumulator

end ItemNeighbors
