import ItemNeighbors.KeySearch
import ItemNeighbors.Rating

/-!
# Item sets

A set of items is kept as the ascending array of its members, so that each member has a rank.
Item sets serve as the universe of a build and as the items that one user rated.

- `ItemSet.ofList`: the set of the ids in a list, whatever their order and repetition.
- `ItemSet.contains`, `ItemSet.indexOf?`: membership and rank, by search.
- `ItemSet.mem_ids_ofList`: the members of `ofList l` are those of `l`.
-/

namespace ItemNeighbors

/-- A finite set of items: its members in strictly ascending order. -/
structure ItemSet where
  ids : Array ItemId
  ascending : ids.toList.Pairwise (· < ·)
deriving DecidableEq

namespace ItemSet

/-- Appends an id, unless it repeats the last one. -/
def pushNew (ids : Array ItemId) (id : ItemId) : Array ItemId :=
  if ids.back? = some id then ids else ids.push id

/-- Pushing keeps an ascending array ascending if the id is not below any of its members. -/
theorem pushNew_ascending {ids : Array ItemId} {id : ItemId}
    (h : ids.toList.Pairwise (· < ·)) (hle : ∀ a ∈ ids.toList, a ≤ id) :
    (pushNew ids id).toList.Pairwise (· < ·) := by
  unfold pushNew
  split
  · exact h
  · rename_i hlast
    rw [Array.toList_push, List.pairwise_append]
    refine ⟨h, List.pairwise_singleton _ _, fun a ha b hb => ?_⟩
    obtain rfl : b = id := by simpa using hb
    refine UInt64.lt_of_le_of_ne (hle a ha) fun hab => hlast ?_
    subst hab
    -- the last member is neither above nor below `a`
    obtain ⟨front, last, hsplit⟩ : ∃ front last, ids.toList = front ++ [last] :=
      ⟨_, _, (List.dropLast_concat_getLast (List.ne_nil_of_mem ha)).symm⟩
    rw [hsplit] at h ha hle
    have hback : ids.back? = some last := by
      rw [← Array.getLast?_toList, hsplit]
      simp
    rcases List.mem_append.mp ha with hfront | hend
    · have h₁ := (List.pairwise_append.mp h).2.2 a hfront last (by simp)
      have h₂ := hle last (by simp)
      exact absurd (UInt64.lt_of_lt_of_le h₁ h₂) (UInt64.lt_irrefl _)
    · obtain rfl : a = last := by simpa using hend
      exact hback

/-- What is in an array after a push. -/
theorem mem_pushNew {ids : Array ItemId} {id x : ItemId} :
    x ∈ (pushNew ids id).toList ↔ x ∈ ids.toList ∨ x = id := by
  unfold pushNew
  split
  · rename_i hlast
    have : id ∈ ids.toList := by
      rw [← Array.getLast?_toList] at hlast
      exact List.mem_of_getLast? hlast
    constructor
    · exact Or.inl
    · rintro (h | rfl)
      · exact h
      · exact this
  · simp

/-- Collapsing a sorted list from the left keeps the array ascending. -/
theorem foldl_pushNew_ascending {l : List ItemId} {ids : Array ItemId}
    (h : ids.toList.Pairwise (· < ·)) (hl : l.Pairwise (· ≤ ·))
    (hle : ∀ a ∈ ids.toList, ∀ b ∈ l, a ≤ b) :
    (l.foldl pushNew ids).toList.Pairwise (· < ·) := by
  induction l generalizing ids with
  | nil => exact h
  | cons b l ih =>
    obtain ⟨hb, hl⟩ := List.pairwise_cons.mp hl
    refine ih (pushNew_ascending h fun a ha => hle a ha b (by simp)) hl fun a ha c hc => ?_
    rcases mem_pushNew.mp ha with ha | rfl
    · exact hle a ha c (by simp [hc])
    · exact hb c hc

/-- What a collapse from the left gathers. -/
theorem mem_foldl_pushNew {l : List ItemId} {ids : Array ItemId} {x : ItemId} :
    x ∈ (l.foldl pushNew ids).toList ↔ x ∈ ids.toList ∨ x ∈ l := by
  induction l generalizing ids with
  | nil => simp
  | cons b l ih => rw [List.foldl_cons, ih, mem_pushNew, List.mem_cons, or_assoc]

/-- Ids in ascending order, repeated ones side by side. -/
def sorted (l : List ItemId) : List ItemId :=
  l.mergeSort fun a b => a ≤ b

theorem pairwise_sorted (l : List ItemId) : (sorted l).Pairwise (· ≤ ·) := by
  refine (List.pairwise_mergeSort ?_ ?_ l).imp fun h => by simpa using h
  · intro a b c hab hbc
    simp only [decide_eq_true_eq] at *
    exact UInt64.le_trans hab hbc
  · intro a b
    simpa using UInt64.le_total a b

/-- The set of the ids in a list. -/
def ofList (l : List ItemId) : ItemSet where
  ids := (sorted l).foldl pushNew #[]
  ascending := foldl_pushNew_ascending (by simp) (pairwise_sorted l) (by simp)

@[simp] theorem mem_ids_ofList {l : List ItemId} {x : ItemId} :
    x ∈ (ofList l).ids.toList ↔ x ∈ l := by
  rw [ofList, mem_foldl_pushNew]
  simp [sorted]

/-- The set without members. -/
def empty : ItemSet where
  ids := #[]
  ascending := by simp

instance : EmptyCollection ItemSet := ⟨empty⟩

/-- The members in ascending order. -/
def toList (s : ItemSet) : List ItemId := s.ids.toList

/-- How many members the set has. -/
def size (s : ItemSet) : Nat := s.ids.size

/-- Whether the set has no member. -/
def isEmpty (s : ItemSet) : Bool := s.ids.isEmpty

/-- The rank of a member: how many members are smaller. -/
def indexOf? (s : ItemSet) (id : ItemId) : Option Nat :=
  keyIndex? (fun x => x) s.ids id

/-- Whether an id is a member. -/
def contains (s : ItemSet) (id : ItemId) : Bool :=
  (s.indexOf? id).isSome

/-- Members at ascending positions ascend. -/
theorem getElem_lt (s : ItemSet) (i j : Nat) (hij : i < j) (hj : j < s.ids.size) :
    s.ids[i] < s.ids[j] := by
  have h := List.pairwise_iff_getElem.mp s.ascending i j (by simp; omega) (by simpa) hij
  rwa [Array.getElem_toList, Array.getElem_toList] at h

/-- Rank and position are the same. -/
theorem indexOf?_eq_some_iff {s : ItemSet} {id : ItemId} {p : Nat} :
    s.indexOf? id = some p ↔ ∃ hp : p < s.ids.size, s.ids[p] = id :=
  keyIndex?_eq_some_iff (fun x => x) s.getElem_lt

theorem indexOf?_lt {s : ItemSet} {id : ItemId} {p : Nat} (h : s.indexOf? id = some p) :
    p < s.size :=
  (indexOf?_eq_some_iff.mp h).1

/-- Search finds every member and nothing else. -/
theorem contains_iff {s : ItemSet} {id : ItemId} : s.contains id = true ↔ id ∈ s.toList := by
  rw [contains, Option.isSome_iff_exists, toList, Array.mem_toList_iff, Array.mem_iff_getElem]
  simp only [indexOf?_eq_some_iff]

end ItemSet

end ItemNeighbors
