import ItemNeighbors.SimilarityMatrix.Accumulator
import ItemNeighbors.Proofs.BestNeighbors
import ItemNeighbors.Proofs.Lookups

/-!
# Filed scores

The rows of an accumulator do not mix: what a row holds is decided by the puts that were addressed
to it, in their order. So an accumulator is a function of the puts it was given.

- `ScoreAccumulator.putAll`: some puts one after the other, into any accumulator.
- `Truncation.offersTo`: the neighbors that a row was offered by some puts.
- `NeighborAccumulator.after`: the accumulator after some puts.
- `NeighborAccumulator.attempt_after`, `NeighborAccumulator.attemptSymmetric_after`: one more put.
- `NeighborAccumulator.attempt_of_not_mem`: a put that fails, and what it leaves.
- `NeighborAccumulator.neighbors?_toMatrix_after`: the rows of the finished matrix.
-/

namespace ItemNeighbors

/-- A put: the item of the row, the other item and the score. -/
abbrev Put := ItemId × ItemId × Float

/-- The rows that a put concerns: the item of the row and the other item. -/
def Put.address (p : Put) : ItemId × ItemId := (p.1, p.2.1)

/-! ## Puts one after the other -/

namespace ScoreAccumulator

variable {α : Type} [ScoreAccumulator α] {acc acc' : α} {puts : List Put}

/-- Files some puts one after the other. -/
def putAll (acc : α) (puts : List Put) : Except BuildError α :=
  puts.foldlM (fun acc p => put acc p.1 p.2.1 p.2.2) acc

theorem putAll_nil_eq_ok_iff : putAll acc [] = .ok acc' ↔ acc = acc' :=
  ⟨fun h => Except.ok.inj h, congrArg Except.ok⟩

theorem putAll_cons_eq_ok_iff {p : Put} :
    putAll acc (p :: puts) = .ok acc' ↔
      ∃ acc₁, put acc p.1 p.2.1 p.2.2 = .ok acc₁ ∧ putAll acc₁ puts = .ok acc' := by
  rw [putAll, List.foldlM_cons]
  cases put acc p.1 p.2.1 p.2.2 with
  | error e =>
    constructor
    · intro h
      cases h
    · rintro ⟨acc₁, h, -⟩
      cases h
  | ok acc₁ =>
    constructor
    · intro h
      exact ⟨acc₁, rfl, h⟩
    · rintro ⟨_, h, hrest⟩
      cases h
      exact hrest

theorem putAll_append_eq_ok_iff {rest : List Put} :
    putAll acc (puts ++ rest) = .ok acc' ↔
      ∃ acc₁, putAll acc puts = .ok acc₁ ∧ putAll acc₁ rest = .ok acc' := by
  induction puts generalizing acc with
  | nil => simp [putAll_nil_eq_ok_iff]
  | cons p puts ih =>
    simp only [List.cons_append, putAll_cons_eq_ok_iff, ih]
    constructor
    · rintro ⟨acc₁, hp, acc₂, hputs, hrest⟩
      exact ⟨acc₂, ⟨acc₁, hp, hputs⟩, hrest⟩
    · rintro ⟨acc₂, ⟨acc₁, hp, hputs⟩, hrest⟩
      exact ⟨acc₁, hp, acc₂, hputs, hrest⟩

/-- What one put keeps is kept by any number of puts. -/
theorem putAll_induction {P : α → List Put → Prop}
    (hput : ∀ acc acc' puts item other score, P acc puts →
      put acc item other score = .ok acc' → P acc' (puts ++ [(item, other, score)]))
    {before : List Put} (h : P acc before) (hall : putAll acc puts = .ok acc') :
    P acc' (before ++ puts) := by
  induction puts generalizing acc before with
  | nil =>
    obtain rfl := putAll_nil_eq_ok_iff.mp hall
    rwa [List.append_nil]
  | cons p puts ih =>
    obtain ⟨acc₁, hp, hputs⟩ := putAll_cons_eq_ok_iff.mp hall
    have hrest := ih (hput _ _ _ _ _ _ h hp) hputs
    rwa [List.append_assoc] at hrest

end ScoreAccumulator

namespace ItemSet

/-- Members at different positions differ. -/
theorem getElem_inj (s : ItemSet) {i j : Nat} (hi : i < s.ids.size) (hj : j < s.ids.size) :
    s.ids[i] = s.ids[j] ↔ i = j := by
  constructor
  · intro h
    rcases Nat.lt_trichotomy i j with hij | hij | hij
    · exact absurd h (UInt64.ne_of_lt (s.getElem_lt i j hij hj))
    · exact hij
    · exact absurd h.symm (UInt64.ne_of_lt (s.getElem_lt j i hij hi))
  · rintro rfl
    rfl

/-- Search finds nothing that is no member. -/
theorem indexOf?_of_not_mem {s : ItemSet} {item : ItemId} (h : item ∉ s.toList) :
    s.indexOf? item = none := by
  rw [← Option.not_isSome_iff_eq_none]
  exact mt contains_iff.mp h

/-- Changing an array of one element per member at the rank of a member changes the element of
that member and no other. -/
theorem modify_map (s : ItemSet) {α : Type} (g : ItemId → α) (f : α → α) {item : ItemId} {p : Nat}
    (hp : s.indexOf? item = some p) :
    (s.ids.map g).modify p f = s.ids.map fun x => if x = item then f (g x) else g x := by
  obtain ⟨hlt, rfl⟩ := indexOf?_eq_some_iff.mp hp
  refine Array.ext (by simp) ?_
  intro q hq _
  have hq' : q < s.ids.size := by simpa using hq
  rw [Array.getElem_modify, Array.getElem_map, Array.getElem_map]
  by_cases hpq : p = q
  · subst hpq
    rw [if_pos rfl, if_pos rfl]
  · rw [if_neg hpq, if_neg fun h => hpq ((s.getElem_inj hq' hlt).mp h).symm]

end ItemSet

namespace Truncation

/-- The neighbors that the row of `item` is offered by some puts: those of its own puts whose
score exceeds the threshold. -/
def offersTo (t : Truncation) (item : ItemId) (puts : List Put) : List Neighbor :=
  puts.filterMap fun (i, other, score) =>
    if i = item ∧ i ≠ other ∧ t.threshold < score then some ⟨other, score⟩ else none

/-- The heap of `item` after some puts. -/
def rowAfter (t : Truncation) (puts : List Put) (item : ItemId) : Array Neighbor :=
  NeighborHeap.best t.neighborhoodSize (t.offersTo item puts)

variable {t : Truncation} {item other : ItemId} {score : Float} {puts : List Put}

@[simp] theorem offersTo_nil : t.offersTo item [] = [] := rfl

@[simp] theorem offersTo_append (puts' : List Put) :
    t.offersTo item (puts ++ puts') = t.offersTo item puts ++ t.offersTo item puts' :=
  List.filterMap_append

/-- A put under another item leaves the row as it is. -/
theorem rowAfter_concat_of_ne {row : ItemId} (h : row ≠ item) :
    t.rowAfter (puts ++ [(item, other, score)]) row = t.rowAfter puts row := by
  have hnone : t.offersTo row [(item, other, score)] = [] := by
    simp [offersTo, Ne.symm h]
  rw [rowAfter, offersTo_append, hnone, List.append_nil, rowAfter]

/-- A put of an item beside itself, or of a score that does not exceed the threshold, is lost. -/
theorem rowAfter_concat_of_not (h : ¬ (item ≠ other ∧ t.threshold < score)) :
    t.rowAfter (puts ++ [(item, other, score)]) item = t.rowAfter puts item := by
  have hnone : t.offersTo item [(item, other, score)] = [] := by
    simp only [offersTo, List.filterMap_cons, true_and, if_neg h, List.filterMap_nil]
  rw [rowAfter, offersTo_append, hnone, List.append_nil, rowAfter]

/-- Any other put is an offer to the heap of its item. -/
theorem rowAfter_concat_of_pos (hne : item ≠ other) (hlt : t.threshold < score) :
    t.rowAfter (puts ++ [(item, other, score)]) item =
      NeighborHeap.offer t.neighborhoodSize (t.rowAfter puts item) ⟨other, score⟩ := by
  have hone : t.offersTo item [(item, other, score)] = [⟨other, score⟩] := by
    simp [offersTo, hne, hlt]
  rw [rowAfter, offersTo_append, hone, NeighborHeap.best_concat, rowAfter]

end Truncation

namespace NeighborAccumulator

/-- The accumulator for `items` after some puts. -/
def after (t : Truncation) (items : ItemSet) (puts : List Put) : NeighborAccumulator where
  items := items
  rows := items.ids.map (t.rowAfter puts)
  truncation := t
  size_rows := Array.size_map ..

variable {t : Truncation} {items : ItemSet} {puts : List Put} {item other : ItemId} {score : Float}

theorem ext_rows {a b : NeighborAccumulator} (hitems : a.items = b.items) (hrows : a.rows = b.rows)
    (htruncation : a.truncation = b.truncation) : a = b := by
  cases a
  cases b
  subst hitems hrows htruncation
  rfl

/-- Nothing has been put into a new accumulator. -/
theorem create_eq_after : create t items = after t items [] := by
  refine ext_rows rfl ?_ rfl
  show Array.replicate items.size #[] = items.ids.map (t.rowAfter [])
  refine Array.ext (by simp [ItemSet.size]) ?_
  intro i _ _
  rw [Array.getElem_replicate, Array.getElem_map]
  rfl

/-- How a put changes the rows if its score is taken in. -/
theorem modify_rows_after {p : Nat} (hp : items.indexOf? item = some p) (hne : item ≠ other)
    (hlt : t.threshold < score) :
    (after t items puts).rows.modify p
        (fun row => NeighborHeap.offer t.neighborhoodSize row ⟨other, score⟩) =
      (after t items (puts ++ [(item, other, score)])).rows := by
  show (items.ids.map (t.rowAfter puts)).modify p _ = items.ids.map _
  rw [items.modify_map _ _ hp]
  apply Array.map_congr_left
  intro row _
  by_cases hrow : row = item
  · rw [if_pos hrow, hrow, Truncation.rowAfter_concat_of_pos hne hlt]
  · rw [if_neg hrow, Truncation.rowAfter_concat_of_ne hrow]

/-- How a put leaves the rows alone if its score is of no use. -/
theorem rows_after_concat_of_not
    (h : ¬ (item ≠ other ∧ t.threshold < score ∧ t.neighborhoodSize ≠ 0)) :
    (after t items (puts ++ [(item, other, score)])).rows = (after t items puts).rows := by
  show items.ids.map _ = items.ids.map _
  apply Array.map_congr_left
  intro row _
  by_cases hrow : row = item
  · subst hrow
    by_cases hroom : t.neighborhoodSize = 0
    · -- a row without room is empty, whatever it is offered
      rw [Truncation.rowAfter, Truncation.rowAfter, hroom, NeighborHeap.best_zero,
        NeighborHeap.best_zero]
    · exact Truncation.rowAfter_concat_of_not fun ⟨hne, hlt⟩ => h ⟨hne, hlt, hroom⟩
  · exact Truncation.rowAfter_concat_of_ne hrow

theorem accepts_after_iff :
    (after t items puts).accepts item other score = true ↔
      item ≠ other ∧ t.threshold < score ∧ t.neighborhoodSize ≠ 0 := by
  show (item != other && decide (t.threshold < score) && t.neighborhoodSize != 0) = true ↔ _
  simp only [Bool.and_eq_true, bne_iff_ne, decide_eq_true_eq, and_assoc]

variable {acc acc' : NeighborAccumulator} {members : ItemSet} {e : BuildError}

/-! ## One put -/

/-- A put between two members of the universe succeeds and is one more put. -/
theorem attempt_after (hitem : item ∈ items.toList) (hother : other ∈ items.toList) :
    (after t items puts).attempt item other score =
      (after t items (puts ++ [(item, other, score)]), .ok ()) := by
  obtain ⟨p, hp⟩ := Option.isSome_iff_exists.mp (ItemSet.contains_iff.mpr hitem)
  have hcontains : items.contains other = true := ItemSet.contains_iff.mpr hother
  have hindex : (after t items puts).items.indexOf? item = some p := hp
  have hmember : (!(after t items puts).items.contains other) = false := by
    simp [after, hcontains]
  rw [attempt, hindex]
  simp only [hmember, Bool.false_eq_true, if_false]
  split
  · rename_i haccepts
    obtain ⟨hne, hlt, -⟩ := accepts_after_iff.mp haccepts
    exact Prod.ext (ext_rows rfl (modify_rows_after hp hne hlt) rfl) rfl
  · rename_i haccepts
    have hrows : (after t items (puts ++ [(item, other, score)])).rows = _ :=
      rows_after_concat_of_not (mt accepts_after_iff.mpr haccepts)
    exact Prod.ext (ext_rows rfl hrows.symm rfl) rfl

/-- Both items are checked before anything else, the item of the row first, and nothing is left of
a put that fails. -/
theorem attempt_of_not_mem (h : ¬ (item ∈ acc.items.toList ∧ other ∈ acc.items.toList))
    (score : Float) :
    acc.attempt item other score =
      (acc, .error (.itemOutsideUniverse (if item ∈ acc.items.toList then other else item))) := by
  by_cases hitem : item ∈ acc.items.toList
  · obtain ⟨p, hp⟩ := Option.isSome_iff_exists.mp (ItemSet.contains_iff.mpr hitem)
    have hother : acc.items.contains other = false :=
      Bool.eq_false_iff.mpr fun hcontains => h ⟨hitem, ItemSet.contains_iff.mp hcontains⟩
    rw [attempt, hp, if_pos hitem]
    simp only [hother, Bool.not_false, if_true]
  · rw [attempt, ItemSet.indexOf?_of_not_mem hitem, if_neg hitem]

/-- Members of the universe are accepted, whatever the rows hold, and the universe stays as it
is. -/
theorem exists_attempt_eq_ok (hitem : item ∈ acc.items.toList) (hother : other ∈ acc.items.toList)
    (score : Float) :
    ∃ acc', acc.attempt item other score = (acc', .ok ()) ∧ acc'.items = acc.items := by
  obtain ⟨p, hp⟩ := Option.isSome_iff_exists.mp (ItemSet.contains_iff.mpr hitem)
  rw [attempt, hp]
  simp only [ItemSet.contains_iff.mpr hother, Bool.not_true, Bool.false_eq_true, if_false]
  split
  · exact ⟨_, rfl, rfl⟩
  · exact ⟨_, rfl, rfl⟩

/-- Filing a score in both directions is two puts. -/
theorem attemptSymmetric_after (hitem : item ∈ items.toList) (hother : other ∈ items.toList) :
    (after t items puts).attemptSymmetric item other score =
      (after t items (puts ++ [(item, other, score), (other, item, score)]), .ok ()) := by
  rw [attemptSymmetric, attempt_after hitem hother]
  simp only [attempt_after hother hitem, List.append_assoc, List.cons_append, List.nil_append]

/-- A put does not change which items are members, so the other direction is accepted, too. -/
theorem exists_attemptSymmetric_eq_ok (hitem : item ∈ acc.items.toList)
    (hother : other ∈ acc.items.toList) (score : Float) :
    ∃ acc', acc.attemptSymmetric item other score = (acc', .ok ()) := by
  obtain ⟨half, hfirst, hitems⟩ := exists_attempt_eq_ok hitem hother score
  rw [← hitems] at hitem hother
  obtain ⟨acc', hsecond, -⟩ := exists_attempt_eq_ok hother hitem score
  refine ⟨acc', ?_⟩
  rw [attemptSymmetric, hfirst]
  exact hsecond

/-- So only the first of the two puts can fail. -/
theorem attemptSymmetric_of_not_mem (h : ¬ (item ∈ acc.items.toList ∧ other ∈ acc.items.toList))
    (score : Float) :
    acc.attemptSymmetric item other score =
      (acc, .error (.itemOutsideUniverse (if item ∈ acc.items.toList then other else item))) := by
  rw [attemptSymmetric, attempt_of_not_mem h]

/-- What a put returns is what it leaves, if it succeeds. -/
theorem put_eq_ok_iff :
    acc.put item other score = .ok acc' ↔ acc.attempt item other score = (acc', .ok ()) := by
  unfold put
  rcases acc.attempt item other score with ⟨filed, e | ⟨⟩⟩
  · simp [Except.map]
  · simp [Except.map]

theorem putSymmetric_eq_ok_iff :
    acc.putSymmetric item other score = .ok acc' ↔
      acc.attemptSymmetric item other score = (acc', .ok ()) := by
  unfold putSymmetric
  rcases acc.attemptSymmetric item other score with ⟨filed, e | ⟨⟩⟩
  · simp [Except.map]
  · simp [Except.map]

theorem put_after (hitem : item ∈ items.toList) (hother : other ∈ items.toList) :
    (after t items puts).put item other score =
      .ok (after t items (puts ++ [(item, other, score)])) :=
  put_eq_ok_iff.mpr (attempt_after hitem hother)

theorem put_of_not_mem (h : ¬ (item ∈ acc.items.toList ∧ other ∈ acc.items.toList))
    (score : Float) :
    acc.put item other score =
      .error (.itemOutsideUniverse (if item ∈ acc.items.toList then other else item)) := by
  rw [put, attempt_of_not_mem h]
  rfl

theorem exists_put_eq_ok (hitem : item ∈ acc.items.toList) (hother : other ∈ acc.items.toList)
    (score : Float) : ∃ acc', acc.put item other score = .ok acc' := by
  obtain ⟨acc', hattempt, -⟩ := exists_attempt_eq_ok hitem hother score
  exact ⟨acc', put_eq_ok_iff.mpr hattempt⟩

/-- Only members of the universe are accepted. -/
theorem mem_of_put_eq_ok (h : acc.put item other score = .ok acc') :
    item ∈ acc.items.toList ∧ other ∈ acc.items.toList := by
  by_contra hmem
  rw [put_of_not_mem hmem] at h
  cases h

theorem items_of_put_eq_ok (h : acc.put item other score = .ok acc') : acc'.items = acc.items := by
  obtain ⟨hitem, hother⟩ := mem_of_put_eq_ok h
  obtain ⟨acc'', hattempt, hitems⟩ := exists_attempt_eq_ok hitem hother score
  obtain rfl := Except.ok.inj (h.symm.trans (put_eq_ok_iff.mpr hattempt))
  exact hitems

/-- When a put fails, and what the error says. -/
theorem put_eq_error_iff :
    acc.put item other score = .error e ↔
      ¬ (item ∈ acc.items.toList ∧ other ∈ acc.items.toList) ∧
        e = .itemOutsideUniverse (if item ∈ acc.items.toList then other else item) := by
  by_cases h : item ∈ acc.items.toList ∧ other ∈ acc.items.toList
  · obtain ⟨acc', hput⟩ := exists_put_eq_ok h.1 h.2 score
    simp [hput, h]
  · rw [put_of_not_mem h score]
    simp [h, eq_comm]

theorem putSymmetric_eq_error_iff :
    acc.putSymmetric item other score = .error e ↔
      ¬ (item ∈ acc.items.toList ∧ other ∈ acc.items.toList) ∧
        e = .itemOutsideUniverse (if item ∈ acc.items.toList then other else item) := by
  unfold putSymmetric
  by_cases h : item ∈ acc.items.toList ∧ other ∈ acc.items.toList
  · obtain ⟨acc', hboth⟩ := exists_attemptSymmetric_eq_ok h.1 h.2 score
    simp [hboth, h, Except.map]
  · rw [attemptSymmetric_of_not_mem h score]
    simp [h, eq_comm, Except.map]

/-- A score that was filed in one direction is accepted in the other. -/
theorem exists_put_swap_eq_ok {half : NeighborAccumulator}
    (h : acc.put item other score = .ok half) :
    ∃ acc', half.put other item score = .ok acc' := by
  obtain ⟨hitem, hother⟩ := mem_of_put_eq_ok h
  rw [← items_of_put_eq_ok h] at hitem hother
  exact exists_put_eq_ok hother hitem score

/-! ## Any number of puts -/

open ScoreAccumulator

/-- Puts leave the universe as it is. -/
theorem items_of_putAll_eq_ok (h : putAll acc puts = .ok acc') : acc'.items = acc.items :=
  @putAll_induction _ _ acc acc' puts (fun acc₁ _ => acc₁.items = acc.items)
    (fun _ _ _ _ _ _ hitems hput => (items_of_put_eq_ok hput).trans hitems) [] rfl h

theorem exists_putAll_eq_ok (acc : NeighborAccumulator)
    (h : ∀ p ∈ puts, p.1 ∈ acc.items.toList ∧ p.2.1 ∈ acc.items.toList) :
    ∃ acc', putAll acc puts = .ok acc' := by
  induction puts generalizing acc with
  | nil => exact ⟨acc, rfl⟩
  | cons p puts ih =>
    obtain ⟨hitem, hother⟩ := h p (by simp)
    obtain ⟨acc₁, hp⟩ := exists_put_eq_ok hitem hother p.2.2
    have hrest : ∀ q ∈ puts, q.1 ∈ acc₁.items.toList ∧ q.2.1 ∈ acc₁.items.toList := by
      rw [items_of_put_eq_ok hp]
      exact fun q hq => h q (by simp [hq])
    obtain ⟨acc', hputs⟩ := ih acc₁ hrest
    exact ⟨acc', putAll_cons_eq_ok_iff.mpr ⟨acc₁, hp, hputs⟩⟩

/-- Accepted puts are between members of the universe. -/
theorem mem_of_putAll_eq_ok (h : putAll acc puts = .ok acc') :
    ∀ p ∈ puts, p.1 ∈ acc.items.toList ∧ p.2.1 ∈ acc.items.toList := by
  induction puts generalizing acc with
  | nil => simp
  | cons p puts ih =>
    obtain ⟨acc₁, hp, hputs⟩ := putAll_cons_eq_ok_iff.mp h
    have hrest := ih hputs
    rw [items_of_put_eq_ok hp] at hrest
    exact List.forall_mem_cons.mpr ⟨mem_of_put_eq_ok hp, hrest⟩

/-- What accepted puts leave in a new accumulator. -/
theorem eq_after_of_putAll (h : putAll (create t members) puts = .ok acc) :
    acc = after t members puts ∧
      ∀ p ∈ puts, p.1 ∈ members.toList ∧ p.2.1 ∈ members.toList := by
  refine ⟨?_, mem_of_putAll_eq_ok h⟩
  rw [create_eq_after] at h
  refine putAll_induction (P := fun acc puts => acc = after t members puts) ?_ rfl h
  rintro _ acc' puts item other score rfl hput
  have hboth : item ∈ members.toList ∧ other ∈ members.toList := mem_of_put_eq_ok hput
  exact Except.ok.inj (hput.symm.trans (put_after hboth.1 hboth.2))

/-- A new accumulator accepts any puts between members of its universe. -/
theorem putAll_create (h : ∀ p ∈ puts, p.1 ∈ members.toList ∧ p.2.1 ∈ members.toList) :
    putAll (create t members) puts = .ok (after t members puts) := by
  obtain ⟨acc, hputs⟩ := exists_putAll_eq_ok (create t members) h
  rw [hputs, (eq_after_of_putAll hputs).1]

/-! ## The finished matrix -/

/-- The finished matrix depends only on what each row was offered. -/
theorem toMatrix_after_congr {puts' : List Put}
    (h : ∀ row ∈ items.toList, t.offersTo row puts = t.offersTo row puts') :
    (after t items puts).toMatrix = (after t items puts').toMatrix := by
  have hrows : (after t items puts).rows = (after t items puts').rows := by
    apply Array.map_congr_left
    intro row hrow
    rw [Truncation.rowAfter, Truncation.rowAfter, h row (Array.mem_toList_iff.mpr hrow)]
  simp only [toMatrix, hrows]
  rfl

/-- The rows of the finished matrix, in ascending order of their items. -/
theorem toList_toMatrix_after :
    (after t items puts).toMatrix.toList =
      items.toList.map fun item => (item, (NeighborHeap.drain (t.rowAfter puts item)).toList) := by
  show items.toList.zip (((items.ids.map (t.rowAfter puts)).map NeighborHeap.drain).toList.map
    Array.toList) = _
  rw [Array.toList_map, Array.toList_map, List.map_map, List.map_map]
  exact List.map_prod_left_eq_zip.symm

/-- The rows of an accumulator into which nothing was put. -/
theorem toList_toMatrix_create :
    (create t items).toMatrix.toList = items.toList.map fun item => (item, []) := by
  rw [create_eq_after, toList_toMatrix_after]
  rfl

/-- The row of a member, best neighbors first. -/
theorem neighbors?_toMatrix_after (hitem : item ∈ items.toList) :
    (after t items puts).toMatrix.neighbors? item =
      some (NeighborHeap.drain (t.rowAfter puts item)).toList := by
  obtain ⟨p, hp⟩ := Option.isSome_iff_exists.mp (ItemSet.contains_iff.mpr hitem)
  obtain ⟨hlt, rfl⟩ := ItemSet.indexOf?_eq_some_iff.mp hp
  show (items.indexOf? items.ids[p]).bind _ = _
  rw [hp, Option.bind_some]
  simp [toMatrix, after, hlt]

/-- There is no row for an item outside the universe. -/
theorem neighbors?_toMatrix_after_of_not_mem (hitem : item ∉ items.toList) :
    (after t items puts).toMatrix.neighbors? item = none := by
  show (items.indexOf? item).bind _ = none
  rw [ItemSet.indexOf?_of_not_mem hitem, Option.bind_none]

end NeighborAccumulator

end ItemNeighbors
