import Mathlib.Data.List.Nodup
import ItemNeighbors.Proofs.CoRating

/-!
# What the row of an item is offered by a run

The strategies go through the pairs in different orders: nested, triangular with two puts for each
pair, and by way of common users. Row by row there is no difference: each row is offered the other
items in ascending order.

- `Strategy.joins`: two items are beside each other in the rows of a run.
- `Strategy.rowScore`: the score of a pair in a row, as the strategy asks for it.
- `Strategy.offered`: the neighbors that a row is offered, in ascending order of the items.
- `Strategy.offersTo_turns`: the turns of a run offer exactly these.
- `Strategy.builtMatrix`: the matrix after all turns.
- `BuildContext.Frozen.run_buildMatrix_ofFunction`: the run of a function on a frozen context.
-/

namespace ItemNeighbors

/-- Only one member of a list without repetition contributes. -/
theorem flatMap_eq_of_ne {α β : Type} {l : List α} (hl : l.Nodup) {a : α} (ha : a ∈ l)
    {g : α → List β} (h : ∀ b ∈ l, b ≠ a → g b = []) : l.flatMap g = g a := by
  obtain ⟨front, back, rfl⟩ := List.append_of_mem ha
  have hnot : a ∉ front ++ back := (List.nodup_cons.mp (List.nodup_middle.mp hl)).1
  have hne : ∀ b ∈ front ++ back, b ≠ a := by
    rintro b hb rfl
    exact hnot hb
  have hfront : front.flatMap g = [] := List.flatMap_eq_nil_iff.mpr fun b hb =>
    h b (by simp [hb]) (hne b (by simp [hb]))
  have hrest : back.flatMap g = [] := List.flatMap_eq_nil_iff.mpr fun b hb =>
    h b (by simp [hb]) (hne b (by simp [hb]))
  rw [List.flatMap_append, List.flatMap_cons, hfront, hrest, List.nil_append, List.append_nil]

/-- A member splits an ascending list into what is below and what is above it. -/
theorem ItemSet.exists_split {items : ItemSet} {row : ItemId} (hrow : row ∈ items.toList) :
    ∃ below above, items.toList = below ++ row :: above ∧
      (∀ item ∈ below, item < row) ∧ ∀ item ∈ above, row < item := by
  obtain ⟨below, above, hsplit⟩ := List.append_of_mem hrow
  have hpair := items.toList_pairwise
  rw [hsplit] at hpair
  obtain ⟨-, hcons, hbelow⟩ := List.pairwise_append.mp hpair
  exact ⟨below, above, hsplit, fun item hitem => hbelow item hitem row (by simp),
    (List.pairwise_cons.mp hcons).1⟩

namespace Strategy

/-- Whether a run puts two items into each other's rows, unless their score keeps them out. -/
def joins (s : Strategy) (c : BuildContext) (row other : ItemId) : Bool :=
  other != row && (!s.isSparse || (c.vectorOf row).overlaps (c.vectorOf other))

/-- The score of a pair in the row of its first item. If each pair is scored once, the vector of
the larger item comes first. -/
def rowScore (s : Strategy) (f : SparseVector → SparseVector → Float) (c : BuildContext)
    (row other : ItemId) : Float :=
  if s.isSymmetric ∧ row < other then f (c.vectorOf other) (c.vectorOf row)
  else f (c.vectorOf row) (c.vectorOf other)

/-- The neighbor that a row is offered for another item, if any. -/
def candidate (s : Strategy) (f : SparseVector → SparseVector → Float) (c : BuildContext)
    (t : Truncation) (row other : ItemId) : Option Neighbor :=
  if s.joins c row other ∧ t.threshold < s.rowScore f c row other then
    some ⟨other, s.rowScore f c row other⟩
  else none

/-- The neighbors that a row is offered by a run. -/
def offered (s : Strategy) (f : SparseVector → SparseVector → Float) (c : BuildContext)
    (t : Truncation) (row : ItemId) : List Neighbor :=
  c.items.toList.filterMap (s.candidate f c t row)

/-- The puts that two items lead to at the turn of the first. -/
def pairPuts (s : Strategy) (f : SparseVector → SparseVector → Float) (c : BuildContext)
    (item other : ItemId) : List Put :=
  if s.scores c item other then
    s.filings item other (f (c.vectorOf item) (c.vectorOf other))
  else []

/-- The puts at the turn of an item. -/
def turnPuts (s : Strategy) (f : SparseVector → SparseVector → Float) (c : BuildContext)
    (item : ItemId) : List Put :=
  c.items.toList.flatMap (s.pairPuts f c item)

variable {s : Strategy} {f : SparseVector → SparseVector → Float} {c : BuildContext}
  {t : Truncation} {row item other : ItemId} {score : Float}

theorem candidate_self : s.candidate f c t row row = none := by
  simp [candidate, joins]

theorem offersTo_flatMap {α : Type} (l : List α) (puts : α → List Put) :
    t.offersTo row (l.flatMap puts) = l.flatMap fun a => t.offersTo row (puts a) :=
  List.filterMap_flatMap

theorem offered_eq_flatMap :
    s.offered f c t row = c.items.toList.flatMap fun other =>
      (s.candidate f c t row other).toList :=
  List.filterMap_eq_flatMap_toList _ _

/-! ## Pairs -/

/-- A score that is filed for two items is an offer to the row of the first. -/
theorem offersTo_filings_self (hne : row ≠ other) :
    t.offersTo row (s.filings row other score) =
      if t.threshold < score then [⟨other, score⟩] else [] := by
  rw [filings]
  by_cases hlt : t.threshold < score
  · split <;> simp [Truncation.offersTo, hne, hne.symm, hlt]
  · split <;> simp [Truncation.offersTo, hlt]

/-- Filed in both directions, it is an offer to the row of the second, too. -/
theorem offersTo_filings_other (hsym : s.isSymmetric = true) (hne : row ≠ item) :
    t.offersTo row (s.filings item row score) =
      if t.threshold < score then [⟨item, score⟩] else [] := by
  rw [filings, if_pos hsym]
  by_cases hlt : t.threshold < score
  · simp [Truncation.offersTo, hne, hne.symm, hlt]
  · simp [Truncation.offersTo, hlt]

/-- The candidate of items that are joined. -/
theorem candidate_of_joins (h : s.joins c row other = true) :
    (s.candidate f c t row other).toList =
      if t.threshold < s.rowScore f c row other then [⟨other, s.rowScore f c row other⟩]
      else [] := by
  rw [candidate]
  by_cases hlt : t.threshold < s.rowScore f c row other
  · rw [if_pos ⟨h, hlt⟩, if_pos hlt, Option.toList_some]
  · rw [if_neg fun hboth => hlt hboth.2, if_neg hlt, Option.toList_none]

theorem ne_of_joins (h : s.joins c row other = true) : row ≠ other := by
  rintro rfl
  simp [joins] at h

/-- A pair offers the row of its first item the candidate, unless that is for the other turn. -/
theorem offersTo_pairPuts_self (h : s.isSymmetric = true → other < row) :
    t.offersTo row (s.pairPuts f c row other) = (s.candidate f c t row other).toList := by
  have hjoins : s.scores c row other = s.joins c row other := by
    cases hsym : s.isSymmetric with
    | false => simp [scores, admits, joins, hsym]
    | true =>
      have hlt := h hsym
      simp [scores, admits, joins, hsym, hlt, UInt64.ne_of_lt hlt]
  have hscore : s.rowScore f c row other = f (c.vectorOf row) (c.vectorOf other) := by
    refine if_neg fun hreversed => ?_
    exact UInt64.lt_asymm hreversed.2 (h hreversed.1)
  rw [pairPuts, hjoins]
  by_cases hj : s.joins c row other = true
  · rw [if_pos hj, offersTo_filings_self (ne_of_joins hj), candidate_of_joins hj, hscore]
  · simp [candidate, hj]

/-- Filed in both directions, a pair offers the row of its second item the candidate, too. -/
theorem offersTo_pairPuts_other (hsym : s.isSymmetric = true) (hgt : row < item) :
    t.offersTo row (s.pairPuts f c item row) = (s.candidate f c t row item).toList := by
  have hjoins : s.scores c item row = s.joins c row item := by
    simp [scores, admits, joins, hsym, hgt, (UInt64.ne_of_lt hgt).symm,
      SparseVector.overlaps_comm (c.vectorOf item)]
  have hscore : s.rowScore f c row item = f (c.vectorOf item) (c.vectorOf row) :=
    if_pos ⟨hsym, hgt⟩
  rw [pairPuts, hjoins]
  by_cases hj : s.joins c row item = true
  · rw [if_pos hj, offersTo_filings_other hsym (ne_of_joins hj), candidate_of_joins hj, hscore]
  · simp [candidate, hj]

/-- A pair offers nothing to the rows of other items. -/
theorem offersTo_pairPuts_of_ne (hitem : item ≠ row)
    (hother : s.isSymmetric = true → other ≠ row) :
    t.offersTo row (s.pairPuts f c item other) = [] := by
  rw [pairPuts]
  split
  · cases hsym : s.isSymmetric with
    | false => simp [filings, hsym, Truncation.offersTo, hitem]
    | true => simp [filings, hsym, Truncation.offersTo, hitem, hother hsym]
  · rfl

/-- If each pair is scored once, larger items have to wait for their own turn. -/
theorem pairPuts_of_not_lt (hsym : s.isSymmetric = true) (hlt : ¬ other < item) :
    s.pairPuts f c item other = [] := by
  refine if_neg ?_
  simp [scores, admits, hsym, hlt]

/-! ## Turns -/

/-- Filing in one direction, only the turn of an item concerns its row. -/
theorem offersTo_turnPuts_of_ne (hsym : s.isSymmetric = false) (hne : item ≠ row) :
    t.offersTo row (s.turnPuts f c item) = [] := by
  rw [turnPuts, offersTo_flatMap, List.flatMap_eq_nil_iff]
  exact fun other _ => offersTo_pairPuts_of_ne hne (by simp [hsym])

/-- Filing in one direction, the turn of an item offers its row everything. -/
theorem offersTo_turnPuts_self (hsym : s.isSymmetric = false) :
    t.offersTo row (s.turnPuts f c row) = s.offered f c t row := by
  rw [turnPuts, offersTo_flatMap, offered_eq_flatMap]
  exact List.flatMap_congr fun other _ => offersTo_pairPuts_self (by simp [hsym])

/-- Filing in both directions, nothing is put into a row at the turn of a smaller item. -/
theorem offersTo_turnPuts_of_lt (hsym : s.isSymmetric = true) (hlt : item < row) :
    t.offersTo row (s.turnPuts f c item) = [] := by
  rw [turnPuts, offersTo_flatMap, List.flatMap_eq_nil_iff]
  intro other _
  by_cases hother : other < item
  · exact offersTo_pairPuts_of_ne (UInt64.ne_of_lt hlt)
      fun _ => UInt64.ne_of_lt (UInt64.lt_trans hother hlt)
  · rw [pairPuts_of_not_lt hsym hother]
    rfl

/-- Filing in both directions, a row is offered the smaller items at its own turn. -/
theorem offersTo_turnPuts_self_of_split (hsym : s.isSymmetric = true)
    {below above : List ItemId} (hsplit : c.items.toList = below ++ row :: above)
    (hbelow : ∀ item ∈ below, item < row) (habove : ∀ item ∈ above, row < item) :
    t.offersTo row (s.turnPuts f c row) =
      below.flatMap fun other => (s.candidate f c t row other).toList := by
  have hnone : ∀ other ∈ row :: above, t.offersTo row (s.pairPuts f c row other) = [] := by
    intro other hother
    have hle : ¬ other < row := by
      rcases List.mem_cons.mp hother with rfl | hother
      · exact UInt64.lt_irrefl _
      · exact UInt64.lt_asymm (habove other hother)
    rw [pairPuts_of_not_lt hsym hle]
    rfl
  rw [turnPuts, offersTo_flatMap, hsplit, List.flatMap_append,
    List.flatMap_eq_nil_iff.mpr hnone, List.append_nil]
  exact List.flatMap_congr fun other hother => offersTo_pairPuts_self fun _ => hbelow other hother

/-- Filing in both directions, a row is offered a larger item at the turn of that item. -/
theorem offersTo_turnPuts_of_gt (hsym : s.isSymmetric = true) (hrow : row ∈ c.items.toList)
    (hgt : row < item) :
    t.offersTo row (s.turnPuts f c item) = (s.candidate f c t row item).toList := by
  rw [turnPuts, offersTo_flatMap, ← offersTo_pairPuts_other hsym hgt]
  exact flatMap_eq_of_ne (ItemSet.nodup_toList _) hrow fun other _ hne =>
    offersTo_pairPuts_of_ne (UInt64.ne_of_lt hgt).symm fun _ => hne

/-- All turns together offer a row the other items in ascending order. -/
theorem offersTo_turns (hrow : row ∈ c.items.toList) :
    t.offersTo row (c.items.toList.flatMap (s.turnPuts f c)) = s.offered f c t row := by
  rw [offersTo_flatMap]
  cases hsym : s.isSymmetric with
  | false =>
    -- the whole row is offered at its own turn
    rw [← offersTo_turnPuts_self hsym]
    exact flatMap_eq_of_ne (ItemSet.nodup_toList _) hrow fun item _ hne =>
      offersTo_turnPuts_of_ne hsym hne
  | true =>
    -- what is below comes at the own turn, what is above at later turns, one item at each
    obtain ⟨below, above, hsplit, hbelow, habove⟩ := ItemSet.exists_split hrow
    have hfront : (below.flatMap fun item => t.offersTo row (s.turnPuts f c item)) = [] :=
      List.flatMap_eq_nil_iff.mpr fun item hitem => offersTo_turnPuts_of_lt hsym (hbelow item hitem)
    have hback : (above.flatMap fun item => t.offersTo row (s.turnPuts f c item)) =
        above.flatMap fun item => (s.candidate f c t row item).toList :=
      List.flatMap_congr fun item hitem =>
        offersTo_turnPuts_of_gt hsym hrow (habove item hitem)
    rw [offered_eq_flatMap, hsplit, List.flatMap_append, List.flatMap_append, List.flatMap_cons,
      List.flatMap_cons, hfront, hback, candidate_self,
      offersTo_turnPuts_self_of_split hsym hsplit hbelow habove]
    rfl

/-! ## The matrix of a run -/

/-- The matrix after the turns of all items. -/
def builtMatrix (s : Strategy) (f : SparseVector → SparseVector → Float) (c : BuildContext)
    (t : Truncation) : SimilarityMatrix :=
  (NeighborAccumulator.after t c.items (c.items.toList.flatMap (s.turnPuts f c))).toMatrix

/-- Strategies that offer each row the same neighbors build the same matrix. -/
theorem builtMatrix_congr {s' : Strategy}
    (h : ∀ row ∈ c.items.toList, ∀ other ∈ c.items.toList,
      s.candidate f c t row other = s'.candidate f c t row other) :
    s.builtMatrix f c t = s'.builtMatrix f c t := by
  apply NeighborAccumulator.toMatrix_after_congr
  intro row hrow
  rw [offersTo_turns hrow, offersTo_turns hrow]
  exact List.filterMap_congr (h row hrow)

/-- The row of a member holds the best of what it was offered. -/
theorem neighbors?_builtMatrix (hrow : row ∈ c.items.toList) :
    (s.builtMatrix f c t).neighbors? row =
      some (NeighborHeap.drain
        (NeighborHeap.best t.neighborhoodSize (s.offered f c t row))).toList := by
  rw [builtMatrix, NeighborAccumulator.neighbors?_toMatrix_after hrow, Truncation.rowAfter,
    offersTo_turns hrow]

theorem neighbors?_builtMatrix_of_not_mem (hrow : row ∉ c.items.toList) :
    (s.builtMatrix f c t).neighbors? row = none :=
  NeighborAccumulator.neighbors?_toMatrix_after_of_not_mem hrow

end Strategy

namespace BuildContext.Frozen

variable {snapshot : Snapshot} {collect : Bool} {c : BuildContext} {s : Strategy}
  {f : SparseVector → SparseVector → Float} {t : Truncation}

/-- The puts of a run are those of its turns. -/
theorem putsFrom_eq (h : c.Frozen snapshot collect) (hcollect : s.isSparse = true → collect = true)
    (isSparse isSymmetric : Bool) (n : Nat) :
    s.putsFrom (.ofFunction f isSparse isSymmetric) c n (s.pairs c) =
      c.items.toList.flatMap (s.turnPuts f c) := by
  rw [Strategy.putsFrom_ofFunction, h.pairs_eq hcollect, List.flatMap_assoc]
  refine List.flatMap_congr fun item _ => ?_
  -- leaving out the partners that are not scored is the same as filing nothing for them
  rw [List.flatMap_map, Strategy.turnPuts]
  induction c.items.toList with
  | nil => rfl
  | cons other items ih =>
    rw [List.filter_cons, List.flatMap_cons, Strategy.pairPuts, ← ih]
    split
    · rw [List.flatMap_cons]
    · rw [List.nil_append]

/-- The run of a function on a frozen context. -/
theorem run_buildMatrix_ofFunction (h : c.Frozen snapshot collect)
    (hcollect : s.isSparse = true → collect = true) (isSparse isSymmetric : Bool) (j : Journal) :
    (s.buildMatrix (.ofFunction f isSparse isSymmetric) c (t.factory c.items)).run j =
      (.ok (s.builtMatrix f c t), s.journalAfter (.ofFunction f isSparse isSymmetric) c j) := by
  rw [Truncation.factory, Strategy.run_buildMatrix (Similarity.total_ofFunction f _ _)
    (h.scorable hcollect), h.putsFrom_eq hcollect]
  rfl

end BuildContext.Frozen

end ItemNeighbors
