import ItemNeighbors.KeySearch

/-!
# Sparse vectors

A sparse vector stores a value for each of finitely many keys, in strictly ascending order of the
keys. The keys of an item's vector are users, those of a user's vector are items.

- `SparseVector.ofPairs`: the vector of a list of pairs, where the last pair of a key counts.
- `SparseVector.get?`, `SparseVector.containsKey`: look-up of a key, by search.
- `SparseVector.sum`, `SparseVector.mean`, `SparseVector.norm`: sums run from left to right and
  start at negative zero, the neutral element of floating point addition.
- `SparseVector.mapValues`: new values on the same keys.
-/

namespace ItemNeighbors

/-- A key and the value stored for it. -/
abbrev Entry := UInt64 × Float

/-- Finitely many entries in strictly ascending order of their keys. -/
structure SparseVector where
  entries : Array Entry
  ascending : entries.toList.Pairwise (·.1 < ·.1)
deriving DecidableEq

namespace SparseVector

/-- Appends an entry; one with the same key as the last entry takes its place. -/
def pushLast (entries : Array Entry) (entry : Entry) : Array Entry :=
  match entries.back? with
  | some last => if last.1 = entry.1 then entries.pop.push entry else entries.push entry
  | none => entries.push entry

/-- How an array ends after a push: the entries that stay have smaller keys, and the pushed one
comes last. -/
theorem exists_pushLast_eq {entries : Array Entry} {entry : Entry}
    (h : entries.toList.Pairwise (·.1 < ·.1)) (hle : ∀ a ∈ entries.toList, a.1 ≤ entry.1) :
    ∃ front, (pushLast entries entry).toList = front ++ [entry] ∧
      front.Sublist entries.toList ∧ ∀ a ∈ front, a.1 < entry.1 := by
  unfold pushLast
  rcases hback : entries.back? with _ | last
  · have hnil : entries.toList = [] := by
      rw [← Array.getLast?_toList] at hback
      exact List.getLast?_eq_none_iff.mp hback
    exact ⟨[], by simp [hnil], by simp, by simp⟩
  · obtain ⟨front, hfront⟩ : ∃ front, entries.toList = front ++ [last] := by
      rw [← Array.getLast?_toList] at hback
      have hne : entries.toList ≠ [] := by rintro hnil; rw [hnil] at hback; simp at hback
      refine ⟨entries.toList.dropLast, ?_⟩
      rw [List.getLast?_eq_some_getLast hne] at hback
      rw [← Option.some.inj hback, List.dropLast_concat_getLast]
    have hbelow : ∀ a ∈ front, a.1 < last.1 := fun a ha => by
      rw [hfront] at h
      exact (List.pairwise_append.mp h).2.2 a ha last (by simp)
    dsimp only
    split
    · rename_i hsame
      refine ⟨front, ?_, by rw [hfront]; exact List.sublist_append_left _ _, fun a ha => ?_⟩
      · rw [Array.toList_push, Array.toList_pop, hfront, List.dropLast_concat]
      · exact hsame ▸ hbelow a ha
    · rename_i hdiff
      refine ⟨entries.toList, Array.toList_push .., List.Sublist.refl _, fun a ha => ?_⟩
      have hlast : last.1 < entry.1 :=
        UInt64.lt_of_le_of_ne (hle last (by rw [hfront]; simp)) hdiff
      rw [hfront] at ha
      rcases List.mem_append.mp ha with ha | ha
      · exact UInt64.lt_trans (hbelow a ha) hlast
      · obtain rfl : a = last := by simpa using ha
        exact hlast

/-- Pushing the entries of a list with ascending keys keeps the keys strictly ascending. -/
theorem foldl_pushLast_ascending {l : List Entry} {entries : Array Entry}
    (h : entries.toList.Pairwise (·.1 < ·.1)) (hl : l.Pairwise (·.1 ≤ ·.1))
    (hle : ∀ a ∈ entries.toList, ∀ b ∈ l, a.1 ≤ b.1) :
    (l.foldl pushLast entries).toList.Pairwise (·.1 < ·.1) := by
  induction l generalizing entries with
  | nil => exact h
  | cons b l ih =>
    obtain ⟨hb, hl⟩ := List.pairwise_cons.mp hl
    obtain ⟨front, heq, hsub, hlt⟩ :=
      exists_pushLast_eq h fun a ha => hle a ha b (by simp)
    refine ih ?_ hl fun a ha c hc => ?_
    · rw [heq, List.pairwise_append]
      exact ⟨h.sublist hsub, List.pairwise_singleton _ _, fun a ha c hc => by
        obtain rfl : c = b := by simpa using hc
        exact hlt a ha⟩
    · rw [heq] at ha
      rcases List.mem_append.mp ha with ha | ha
      · exact hle a (hsub.subset ha) c (by simp [hc])
      · obtain rfl : a = b := by simpa using ha
        exact hb c hc

/-- Pairs in ascending order of their keys; pairs with the same key keep their order. -/
def sortedByKey (pairs : List Entry) : List Entry :=
  pairs.mergeSort fun a b => a.1 ≤ b.1

theorem pairwise_sortedByKey (pairs : List Entry) :
    (sortedByKey pairs).Pairwise (·.1 ≤ ·.1) := by
  refine (List.pairwise_mergeSort ?_ ?_ pairs).imp fun h => by simpa using h
  · intro a b c hab hbc
    simp only [decide_eq_true_eq] at *
    exact UInt64.le_trans hab hbc
  · intro a b
    simpa using UInt64.le_total a.1 b.1

/-- The vector of some pairs, given in any order; the last pair of a key counts. -/
def ofPairs (pairs : List Entry) : SparseVector where
  entries := (sortedByKey pairs).foldl pushLast #[]
  ascending := foldl_pushLast_ascending (by simp) (pairwise_sortedByKey pairs) (by simp)

/-- The vector that stores nothing. -/
def empty : SparseVector where
  entries := #[]
  ascending := by simp

instance : EmptyCollection SparseVector := ⟨empty⟩

/-- Two vectors are equal if they store equal values, as floating point numbers, for the same
keys. So the two zeros are equal, and a vector with a NaN differs from itself. -/
instance : BEq SparseVector := ⟨fun a b => a.entries == b.entries⟩

/-- The entries in ascending order of their keys. -/
def toList (v : SparseVector) : List Entry := v.entries.toList

/-- The keys in ascending order. -/
def keys (v : SparseVector) : List UInt64 := v.toList.map (·.1)

/-- The values in the order of their keys. -/
def values (v : SparseVector) : List Float := v.toList.map (·.2)

/-- How many entries the vector stores. -/
def size (v : SparseVector) : Nat := v.entries.size

/-- Whether the vector stores nothing. -/
def isEmpty (v : SparseVector) : Bool := v.entries.isEmpty

/-- Position of a key among the entries. -/
def indexOf? (v : SparseVector) (key : UInt64) : Option Nat :=
  keyIndex? (·.1) v.entries key

/-- The value stored for a key. -/
def get? (v : SparseVector) (key : UInt64) : Option Float :=
  (v.indexOf? key).bind fun index => v.entries[index]?.map (·.2)

/-- Whether a value is stored for a key. -/
def containsKey (v : SparseVector) (key : UInt64) : Bool :=
  (v.indexOf? key).isSome

/-- Keys at ascending positions ascend. -/
theorem getElem_lt (v : SparseVector) (i j : Nat) (hij : i < j) (hj : j < v.entries.size) :
    v.entries[i].1 < v.entries[j].1 := by
  have h := List.pairwise_iff_getElem.mp v.ascending i j (by simp; omega) (by simpa) hij
  rwa [Array.getElem_toList, Array.getElem_toList] at h

/-- Look-up finds exactly the stored entries. -/
theorem get?_eq_some_iff {v : SparseVector} {key : UInt64} {value : Float} :
    v.get? key = some value ↔ (key, value) ∈ v.toList := by
  rw [get?, indexOf?, Option.bind_eq_some_iff, toList, Array.mem_toList_iff,
    Array.mem_iff_getElem]
  simp only [keyIndex?_eq_some_iff (fun e : Entry => e.1) v.getElem_lt]
  constructor
  · rintro ⟨p, ⟨hp, rfl⟩, hv⟩
    rw [Array.getElem?_eq_getElem hp, Option.map_some] at hv
    exact ⟨p, hp, Prod.ext rfl (Option.some.inj hv)⟩
  · rintro ⟨p, hp, he⟩
    exact ⟨p, ⟨hp, by rw [he]⟩, by rw [Array.getElem?_eq_getElem hp, he]; rfl⟩

/-- Adds floating point numbers from left to right. -/
def total (values : List Float) : Float :=
  values.foldl (· + ·) (-0.0)

/-- The sum of the stored values after a function was applied to each. -/
def sumOf (f : Float → Float) (v : SparseVector) : Float :=
  v.entries.foldl (fun sum entry => sum + f entry.2) (-0.0)

/-- The sum of the stored values. -/
def sum (v : SparseVector) : Float := v.sumOf fun value => value

/-- The mean of the stored values, zero if there are none. -/
def mean (v : SparseVector) : Float :=
  if v.isEmpty then 0.0 else v.sum / v.size.toFloat

/-- The Euclidean length. -/
def norm (v : SparseVector) : Float :=
  (v.sumOf fun value => value * value).sqrt

/-- The vector with the same keys and a function applied to each value. -/
def mapValues (f : Float → Float) (v : SparseVector) : SparseVector where
  entries := v.entries.map fun entry => (entry.1, f entry.2)
  ascending := by
    rw [Array.toList_map]
    exact List.pairwise_map.mpr v.ascending

/-- The entries after a change of the values. -/
@[simp] theorem toList_mapValues (f : Float → Float) (v : SparseVector) :
    (v.mapValues f).toList = v.toList.map fun entry => (entry.1, f entry.2) :=
  Array.toList_map ..

@[simp] theorem keys_mapValues (f : Float → Float) (v : SparseVector) :
    (v.mapValues f).keys = v.keys := by
  simp [keys]

end SparseVector

end ItemNeighbors
