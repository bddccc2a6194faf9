import ItemNeighbors.Proofs.MatrixShape

/-!
# Runs that stop early

Nothing makes the parts of a context agree with each other and with the universe of the
accumulator. A run comes to its end exactly if nothing that its pairs need is missing; if it stops
before, then the error names something that is, and what was done is the beginning of what the
whole run would have done.

- `Strategy.Due`: the pairs that a strategy has to score.
- `Strategy.mem_pairs_iff_due`: they are the pairs of its run.
- `Strategy.Complete`, `Strategy.Lacks`: nothing is missing, and an item that is missing.
- `Strategy.Stops`: what an early end looks like, and `Strategy.stops_foldlM` for a sequence.
- `Strategy.run_ends_iff_complete`: when a run comes to its end, and how it goes.
-/

namespace ItemNeighbors

/-- Some user in the vector of `item` has `other` in his set. Users without a set do not count. -/
def BuildContext.Links (c : BuildContext) (item other : ItemId) : Prop :=
  ∃ vector, c.itemVector? item = some vector ∧
    ∃ user ∈ vector.keys, ∃ set, c.userItemSet user = .ok (some set) ∧ other ∈ set.toList

theorem BuildContext.itemVector_eq_error_iff {c : BuildContext} {item : ItemId} {e : BuildError} :
    c.itemVector item = .error e ↔ c.itemVector? item = none ∧ e = .itemOutsideUniverse item := by
  rw [itemVector]
  cases c.itemVector? item with
  | none => simp [eq_comm]
  | some vector => simp

namespace Scoring

variable {α β : Type} {j j' : Journal}

/-! ## Steps that fail -/

/-- A sequence fails in its first part or in its second one. -/
theorem run_bind_eq_error_iff {x : Scoring α} {f : α → Scoring β} {e : BuildFailure} :
    (x >>= f).run j = (.error e, j') ↔
      x.run j = (.error e, j') ∨ ∃ a j₁, x.run j = (.ok a, j₁) ∧ (f a).run j₁ = (.error e, j') := by
  rcases hx : x.run j with ⟨result, j₁⟩
  cases result with
  | ok a =>
    rw [run_bind_ok hx]
    constructor
    · intro h
      exact .inr ⟨a, j₁, rfl, h⟩
    · rintro (h | ⟨_, _, h, hf⟩)
      · cases h
      · cases h
        exact hf
  | error e' =>
    rw [run_bind_error hx]
    constructor
    · intro h
      cases h
      exact .inl rfl
    · rintro (h | ⟨_, _, h, -⟩)
      · cases h
        rfl
      · cases h

theorem run_require_eq_error_iff {result : Except BuildError α} {e : BuildFailure} :
    (require result).run j = (.error e, j') ↔
      ∃ cause, result = .error cause ∧ e = .refused cause ∧ j' = j := by
  cases result with
  | ok a =>
    constructor
    · intro h
      cases h
    · rintro ⟨_, h, -⟩
      cases h
  | error cause =>
    constructor
    · intro h
      cases h
      exact ⟨cause, rfl, rfl, rfl⟩
    · rintro ⟨_, h, rfl, rfl⟩
      cases h
      rfl

/-- A put that fails is on record, too. -/
theorem run_put_eq_error_iff [ScoreAccumulator α] {acc : α} {item other : ItemId} {score : Float}
    {e : BuildFailure} :
    (put acc item other score).run j = (.error e, j') ↔
      ∃ cause, ScoreAccumulator.put acc item other score = .error cause ∧ e = .refused cause ∧
        j' = { j with events := j.events.push (.put item other score) } := by
  unfold put
  rw [run_bind_ok (run_modify _), run_require_eq_error_iff]

end Scoring

namespace Strategy

/-- The strategy has to score `other` at the turn of `item`. The partner of a sparse strategy need
not be an item of the context. -/
def Due (c : BuildContext) (item other : ItemId) : Strategy → Prop
  | simple => item ∈ c.items.toList ∧ other ∈ c.items.toList ∧ other ≠ item
  | symmetric => item ∈ c.items.toList ∧ other ∈ c.items.toList ∧ other < item
  | sparse => item ∈ c.items.toList ∧ c.Links item other ∧ other ≠ item
  | sparseSymmetric => item ∈ c.items.toList ∧ c.Links item other ∧ other < item

/-- Nothing that the pairs of a strategy need is missing. -/
structure Complete (s : Strategy) (c : BuildContext) (members : ItemSet) : Prop where
  vector : ∀ item ∈ c.items.toList, (c.itemVector? item).isSome = true
  otherVector : ∀ item other, s.Due c item other → (c.itemVector? other).isSome = true
  mem : ∀ item other, s.Due c item other → item ∈ members.toList ∧ other ∈ members.toList

/-- The strategy needs the vector of an item that has none, or it has to file a score for an item
outside of the universe. -/
def Lacks (s : Strategy) (c : BuildContext) (members : ItemSet) (item : ItemId) : Prop :=
  (c.itemVector? item = none ∧ (item ∈ c.items.toList ∨ ∃ first, s.Due c first item)) ∨
    (item ∉ members.toList ∧ ∃ other, s.Due c item other ∨ s.Due c other item)

variable {s : Strategy} {sim : Similarity} {c : BuildContext} {item other : ItemId}

/-! ## The pairs of a run -/

theorem mem_setOf_iff {user : UserId} :
    item ∈ (c.setOf user).toList ↔
      ∃ set, c.userItemSet user = .ok (some set) ∧ item ∈ set.toList := by
  have hempty : item ∉ (∅ : ItemSet).toList := List.not_mem_nil
  unfold BuildContext.setOf
  rcases c.userItemSet user with e | _ | set
  · simp [hempty]
  · simp [hempty]
  · simp

theorem links_iff :
    c.Links item other ↔ ∃ user ∈ (c.vectorOf item).keys, other ∈ (c.setOf user).toList := by
  have hempty : ∀ user, user ∉ (∅ : SparseVector).keys := fun _ => List.not_mem_nil
  simp only [BuildContext.Links, mem_setOf_iff, BuildContext.vectorOf]
  cases c.itemVector? item with
  | none => simp [hempty]
  | some vector => simp

/-- The pairs of all strategies in one form. -/
theorem due_iff :
    s.Due c item other ↔ item ∈ c.items.toList ∧ s.admits item other = true ∧
      if s.isSparse then ∃ user ∈ (c.vectorOf item).keys, other ∈ (c.setOf user).toList
      else other ∈ c.items.toList := by
  cases s <;> simp [Due, admits, isSymmetric, isSparse, links_iff, and_comm]

/-- With all sets collected, or without a need for them, the partners of an item are found. -/
theorem partners_of_sets (hsets : s.isSparse = true → c.hasUserItemSets = true) (item : ItemId) :
    s.partners c item (c.vectorOf item) = .ok (s.partnersOf c item) ∧
      ∀ other, item ∈ c.items.toList → (other ∈ s.partnersOf c item ↔ s.Due c item other) := by
  cases hsparse : s.isSparse with
  | false =>
    have hpartners : s.partners c item (c.vectorOf item) =
        .ok (c.items.toList.filter (s.admits item)) := partners_eq_of_not_isSparse hsparse
    rw [partnersOf, hpartners]
    refine ⟨rfl, fun other hitem => ?_⟩
    simp [due_iff, hsparse, hitem, List.mem_filter, and_comm]
  | true =>
    obtain ⟨sets, hsome⟩ := Option.isSome_iff_exists.mp (hsets hsparse)
    have hlookup : ∀ user, ∃ set, c.userItemSet user = .ok set := fun user =>
      ⟨sets[user]?, by rw [BuildContext.userItemSet, hsome]⟩
    obtain ⟨found, hok, hfound⟩ := exists_coRatedItems_eq_ok hlookup (c.vectorOf item)
    have hpartners : s.partners c item (c.vectorOf item) =
        .ok (ItemSet.ofList (found.toList.filter (s.admits item))).toList := by
      rw [partners, if_pos hsparse, hok]
      rfl
    rw [partnersOf, hpartners]
    refine ⟨rfl, fun other hitem => ?_⟩
    simp [due_iff, hsparse, hitem, hfound, and_comm]

theorem mem_pairs_iff_due (hsets : s.isSparse = true → c.hasUserItemSets = true) :
    (item, other) ∈ s.pairs c ↔ s.Due c item other := by
  have hpartners := (partners_of_sets hsets item).2 other
  simp only [pairs, List.mem_flatMap, List.mem_map, Prod.mk.injEq]
  constructor
  · rintro ⟨_, hitem, _, hother, rfl, rfl⟩
    exact (hpartners hitem).mp hother
  · intro hdue
    have hitem := (due_iff.mp hdue).1
    exact ⟨item, hitem, other, (hpartners hitem).mpr hdue, rfl, rfl⟩

/-! ## Where a run stops -/

open Scoring

variable {members : ItemSet} {acc acc' : NeighborAccumulator} {score : Float} {j j' : Journal}
  {e : BuildFailure} {p q : List (ItemId × ItemId)}

/-- How a run that has to go through some pairs stops before their end: it names an item that is
missing, and what it did is the beginning of what these pairs lead to. -/
structure Stops (s : Strategy) (sim : Similarity) (c : BuildContext) (members : ItemSet)
    (pairs : List (ItemId × ItemId)) (j : Journal) (e : BuildFailure) (j' : Journal) : Prop where
  cause : ∃ item, e = .refused (.itemOutsideUniverse item) ∧ s.Lacks c members item
  events : ∃ done, done <+: s.eventsFrom sim c j.asked pairs ∧ j'.events = j.events ++ done

/-- What stops at some pairs does not come to later ones. -/
theorem Stops.append (h : s.Stops sim c members p j e j') (q : List (ItemId × ItemId)) :
    s.Stops sim c members (p ++ q) j e j' := by
  obtain ⟨hcause, done, hdone, hevents⟩ := h
  refine ⟨hcause, done, ?_, hevents⟩
  rw [eventsFrom_append]
  exact hdone.trans (List.prefix_append _ _)

/-- What stops after some pairs has gone through them. -/
theorem Stops.after (h : s.Stops sim c members q (s.journalFrom sim c j p) e j') :
    s.Stops sim c members (p ++ q) j e j' := by
  obtain ⟨hcause, done, hdone, hevents⟩ := h
  refine ⟨hcause, s.eventsFrom sim c j.asked p ++ done, ?_, ?_⟩
  · rw [eventsFrom_append]
    exact (List.prefix_append_right_inj _).mpr hdone
  · rw [hevents]
    simp [journalFrom, ← Array.toList_inj]

/-- A score is filed in both directions or in none: a failure comes from the first put. -/
theorem run_file_eq_error_iff :
    (s.file acc item other score).run j = (.error e, j') ↔
      ∃ cause, acc.put item other score = .error cause ∧ e = .refused cause ∧
        j' = { j with events := j.events.push (.put item other score) } := by
  refine Iff.trans ?_ run_put_eq_error_iff
  unfold file
  constructor
  · intro h
    rcases run_bind_eq_error_iff.mp h with h | ⟨half, j₁, hfirst, h⟩
    · exact h
    · obtain ⟨acc', hsecond⟩ :=
        NeighborAccumulator.exists_put_swap_eq_ok (run_put_eq_ok_iff.mp hfirst).1
      cases hsym : s.isSymmetric with
      | true =>
        simp only [hsym, if_true] at h
        rw [run_bind_ok (run_put_eq_ok_iff.mpr ⟨hsecond, rfl⟩)] at h
        cases h
      | false =>
        simp only [hsym] at h
        cases h
  · exact run_bind_error

/-- The events of a pair begin with its question and its first put. -/
theorem asked_put_prefix (n : Nat) :
    let score := sim.answer n (c.vectorOf item) (c.vectorOf other)
    [.asked item other (c.vectorOf item) (c.vectorOf other), .put item other score] <+:
      s.eventsFrom sim c n [(item, other)] := by
  intro score
  simp only [eventsFrom, filings]
  split <;> simp [score]

/-- A pair that cannot be scored. -/
theorem stops_scorePair (hsim : sim.Total) (hdue : s.Due c item other)
    (h : (s.scorePair sim c item (c.vectorOf item) acc other).run j = (.error e, j')) :
    s.Stops sim c acc.items [(item, other)] j e j' := by
  unfold scorePair at h
  rcases run_bind_eq_error_iff.mp h with h | ⟨vector, j, hlookup, h⟩
  · obtain ⟨cause, hcause, rfl, rfl⟩ := run_require_eq_error_iff.mp h
    obtain ⟨hnone, rfl⟩ := BuildContext.itemVector_eq_error_iff.mp hcause
    exact ⟨⟨other, rfl, .inl ⟨hnone, .inr ⟨item, hdue⟩⟩⟩, [], List.nil_prefix, by simp⟩
  · obtain ⟨hvector, rfl⟩ := run_require_eq_ok_iff.mp hlookup
    obtain ⟨-, rfl⟩ := BuildContext.itemVector_eq_ok_iff.mp hvector
    rw [run_bind_ok (run_ask hsim)] at h
    obtain ⟨cause, hput, rfl, rfl⟩ := run_file_eq_error_iff.mp h
    obtain ⟨hmem, rfl⟩ := NeighborAccumulator.put_eq_error_iff.mp hput
    refine ⟨⟨_, rfl, .inr ?_⟩, _, asked_put_prefix j.asked, by simp⟩
    by_cases hitem : item ∈ acc.items.toList
    · rw [if_pos hitem]
      exact ⟨fun hother => hmem ⟨hitem, hother⟩, item, .inr hdue⟩
    · rw [if_neg hitem]
      exact ⟨hitem, other, .inl hdue⟩

/-- Parts of a run one after the other: the first one that fails stops all. -/
theorem stops_foldlM {α : Type} {f : NeighborAccumulator → α → Scoring NeighborAccumulator}
    {P : α → Prop} {g : α → List (ItemId × ItemId)} {l : List α}
    (hok : ∀ a acc acc' j j', (f acc a).run j = (.ok acc', j') ↔
      P a ∧ s.Finishes sim c (g a) j.asked acc acc' ∧ j' = s.journalFrom sim c j (g a))
    (herror : ∀ a ∈ l, ∀ acc j, acc.items = members → (f acc a).run j = (.error e, j') →
      s.Stops sim c members (g a) j e j')
    (hitems : acc.items = members) (h : (l.foldlM f acc).run j = (.error e, j')) :
    s.Stops sim c members (l.flatMap g) j e j' := by
  induction l generalizing acc j with
  | nil => cases h
  | cons a l ih =>
    obtain ⟨hfirst, hrest⟩ := List.forall_mem_cons.mp herror
    rw [List.foldlM_cons] at h
    rw [List.flatMap_cons]
    rcases run_bind_eq_error_iff.mp h with h | ⟨acc₁, j₁, hrun, h⟩
    · exact (hfirst acc j hitems h).append _
    · obtain ⟨-, hfinishes, rfl⟩ := (hok a acc acc₁ j j₁).mp hrun
      -- the first part has kept the universe
      have hitems₁ := NeighborAccumulator.items_of_putAll_eq_ok hfinishes.accepted
      exact (ih hrest (hitems₁.trans hitems) h).after

/-- The turn of an item that cannot be completed. -/
theorem stops_scoreItem (hsets : s.isSparse = true → c.hasUserItemSets = true) (hsim : sim.Total)
    (hitem : item ∈ c.items.toList) (h : (s.scoreItem sim c acc item).run j = (.error e, j')) :
    s.Stops sim c acc.items ((s.partnersOf c item).map (item, ·)) j e j' := by
  obtain ⟨hpartners, hdue⟩ := partners_of_sets hsets item
  unfold scoreItem at h
  rcases run_bind_eq_error_iff.mp h with h | ⟨vector, j, hlookup, h⟩
  · obtain ⟨cause, hcause, rfl, rfl⟩ := run_require_eq_error_iff.mp h
    obtain ⟨hnone, rfl⟩ := BuildContext.itemVector_eq_error_iff.mp hcause
    exact ⟨⟨item, rfl, .inl ⟨hnone, .inl hitem⟩⟩, [], List.nil_prefix, by simp⟩
  · obtain ⟨hvector, rfl⟩ := run_require_eq_ok_iff.mp hlookup
    obtain ⟨-, rfl⟩ := BuildContext.itemVector_eq_ok_iff.mp hvector
    rw [run_bind_ok (run_require_ok hpartners)] at h
    rw [List.map_eq_flatMap]
    refine stops_foldlM (P := fun _ => True) ?_ ?_ rfl h
    · intro other acc acc' j j'
      rw [true_and]
      exact run_scorePair_eq_ok_iff
    · intro other hother acc' j hitems hrun
      rw [← hitems]
      exact stops_scorePair hsim ((hdue other hitem).mp hother) hrun

/-- A run that stops early. -/
theorem stops_of_run (hsets : s.isSparse = true → c.hasUserItemSets = true) (hsim : sim.Total)
    (h : (s.buildMatrix sim c acc).run j = (.error e, j')) :
    s.Stops sim c acc.items (s.pairs c) j e j' := by
  have hturns : ∀ j, (c.items.toList.foldlM (s.scoreItem sim c) acc).run j = (.error e, j') →
      s.Stops sim c acc.items (s.pairs c) j e j' := by
    intro j hrun
    refine stops_foldlM (fun _ _ _ _ _ => run_scoreItem_eq_ok_iff) ?_ rfl hrun
    intro item hitem acc' j hitems hrun
    rw [← hitems]
    exact stops_scoreItem hsets hsim hitem hrun
  unfold buildMatrix at h
  cases hsparse : s.isSparse with
  | true =>
    simp only [hsparse, Bool.not_true, Bool.false_eq_true, if_false, if_true] at h
    rcases run_bind_eq_error_iff.mp h with h | ⟨acc', j₁, -, h⟩
    · exact hturns j h
    · cases h
  | false =>
    simp only [hsparse, Bool.not_false, if_true, Bool.false_eq_true, if_false] at h
    rw [run_bind_ok (run_note _)] at h
    rcases run_bind_eq_error_iff.mp h with h | ⟨acc', j₁, -, h⟩
    · -- the note that comes first has changed neither the calls nor the events
      obtain ⟨hcause, hevents⟩ := hturns _ h
      exact ⟨hcause, hevents⟩
    · cases h

/-! ## When a run comes to its end -/

/-- A pair is filed under its own address, whatever the directions. -/
theorem exists_mem_putsFrom {n : Nat} {pairs : List (ItemId × ItemId)}
    (h : (item, other) ∈ pairs) : ∃ score, (item, other, score) ∈ s.putsFrom sim c n pairs := by
  have hself : (item, other) ∈ s.directions item other := by
    unfold directions
    split <;> simp
  have haddress : (item, other) ∈ (s.putsFrom sim c n pairs).map Put.address := by
    rw [map_address_putsFrom]
    exact List.mem_flatMap.mpr ⟨_, h, hself⟩
  obtain ⟨⟨_, _, score⟩, hput, heq⟩ := List.mem_map.mp haddress
  cases heq
  exact ⟨score, hput⟩

theorem Complete.scorable (h : s.Complete c members)
    (hsets : s.isSparse = true → c.hasUserItemSets = true) : s.Scorable c members := by
  intro item hitem
  obtain ⟨hpartners, hdue⟩ := partners_of_sets hsets item
  exact {
    vector := h.vector item hitem
    partners := hpartners
    otherVector := fun other hother => h.otherVector item other ((hdue other hitem).mp hother)
    mem := fun other hother => h.mem item other ((hdue other hitem).mp hother) }

theorem complete_of_run {m : SimilarityMatrix}
    (hsets : s.isSparse = true → c.hasUserItemSets = true)
    (h : (s.buildMatrix sim c acc).run j = (.ok m, j')) : s.Complete c acc.items := by
  obtain ⟨hfound, ⟨acc', hfinishes, -⟩, -⟩ := run_buildMatrix_eq_ok_iff.mp h
  have hpairs : ∀ {item other}, s.Due c item other → (item, other) ∈ s.pairs c :=
    (mem_pairs_iff_due hsets).mpr
  constructor
  · exact fun item hitem => (hfound item hitem).vector
  · exact fun item other hdue => hfinishes.vectors _ (hpairs hdue)
  · intro item other hdue
    obtain ⟨score, hput⟩ := exists_mem_putsFrom (hpairs hdue)
    exact NeighborAccumulator.mem_of_putAll_eq_ok hfinishes.accepted _ hput

/-- **A run comes to its end exactly if nothing is missing.** Its pairs are fixed by the context,
whatever the similarity answers and the accumulator holds. At the end each pair has been scored and
filed, in ascending order; otherwise the error names an item that is missing, and what was scored
and filed before is a beginning of this. -/
theorem run_ends_iff_complete (hsets : s.isSparse = true → c.hasUserItemSets = true)
    (hsim : sim.Total) (acc : NeighborAccumulator) (asked : Nat) :
    ∃ pairs : List (ItemId × ItemId),
      (∀ item other, (item, other) ∈ pairs ↔ s.Due c item other) ∧
      pairs.Pairwise (fun p q => p.1 < q.1 ∨ p.1 = q.1 ∧ p.2 < q.2) ∧
      ∃ result j, (s.buildMatrix sim c acc).run (.start asked) = (result, j) ∧
        ((∃ m, result = .ok m) ↔ s.Complete c acc.items) ∧
        (∀ m, result = .ok m → j.askedPairs = pairs ∧
          j.puts.map Put.address = pairs.flatMap fun p => s.directions p.1 p.2) ∧
        ∀ e, result = .error e →
          (∃ item, e = .refused (.itemOutsideUniverse item) ∧ s.Lacks c acc.items item) ∧
            j.askedPairs <+: pairs ∧
            j.puts.map Put.address <+: pairs.flatMap fun p => s.directions p.1 p.2 := by
  refine ⟨s.pairs c, fun _ _ => mem_pairs_iff_due hsets, pairwise_pairs s c, ?_⟩
  rcases hrun : (s.buildMatrix sim c acc).run (.start asked) with ⟨result, j⟩
  refine ⟨result, j, rfl, ⟨?_, ?_⟩, ?_, ?_⟩
  · rintro ⟨m, rfl⟩
    exact complete_of_run hsets hrun
  · intro hcomplete
    obtain ⟨m, hends⟩ := exists_run_buildMatrix hsim (hcomplete.scorable hsets)
    rw [hrun] at hends
    exact ⟨m, congrArg Prod.fst hends⟩
  · rintro m rfl
    refine ⟨askedPairs_of_run hrun, ?_⟩
    rw [puts_of_run hrun, map_address_putsFrom]
  · rintro e rfl
    obtain ⟨hcause, done, hdone, hevents⟩ := stops_of_run hsets hsim hrun
    have hlist : j.events.toList = done := by
      rw [hevents]
      simp [Journal.start]
    rw [← hlist] at hdone
    refine ⟨hcause, ?_, ?_⟩
    · have hasked := hdone.filterMap Event.askedPair?
      rwa [filterMap_askedPair?_eventsFrom] at hasked
    · have hputs := (hdone.filterMap Event.put?).map Put.address
      rwa [filterMap_put?_eventsFrom, map_address_putsFrom] at hputs

/-- A user has a set with an item that nobody else knows: the run stops and names it. -/
theorem run_ends_iff_complete_of_unknown_partner :
    let c : BuildContext :=
      { items := .ofList [1]
        itemVectors := (∅ : Std.HashMap ItemId SparseVector).insert 1 (.ofPairs [(7, 4.0)])
        userItems := some ((∅ : Std.HashMap UserId ItemSet).insert 7 (.ofList [1, 9])) }
    ¬ sparse.Complete c (.ofList [1]) ∧
      ∃ j, (sparse.buildMatrix (.cosine 0.0) c (Truncation.factory ⟨1, 0.0⟩ (.ofList [1]))).run
        (.start 0) = (.error (.refused (.itemOutsideUniverse 9)), j) := by
  intro c
  have hvector : ∀ item, c.itemVector? item =
      if 1 = item then some (.ofPairs [(7, 4.0)]) else none := by
    intro item
    simp [c, BuildContext.itemVector?, Std.HashMap.getElem?_insert]
  have hset : ∀ user, c.userItemSet user =
      .ok (if 7 = user then some (.ofList [1, 9]) else none) := by
    intro user
    simp [c, BuildContext.userItemSet, Std.HashMap.getElem?_insert]
  have hkeys : ∀ user, user ∈ (c.vectorOf 1).keys ↔ 7 = user := by
    intro user
    simp [BuildContext.vectorOf, hvector, SparseVector.mem_keys_iff, SparseVector.get?_ofPairs]
  have hdue : ∀ item other, sparse.Due c item other ↔ item = 1 ∧ other = 9 := by
    intro item other
    by_cases hitem : item = 1
    · subst hitem
      simp only [Due, links_iff, hkeys, mem_setOf_iff, hset, exists_eq_left', if_true,
        Except.ok.injEq, Option.some.injEq, ItemSet.mem_toList_ofList]
      simp only [c, ItemSet.mem_toList_ofList]
      grind
    · simp [Due, c, hitem]
  have hincomplete : ¬ sparse.Complete c (.ofList [1]) := by
    intro h
    have hother := h.otherVector 1 9 ((hdue 1 9).mpr ⟨rfl, rfl⟩)
    simp [hvector] at hother
  obtain ⟨_, -, -, result, j, hrun, hends, -, herror⟩ := run_ends_iff_complete (s := sparse)
    (c := c) (fun _ => rfl) (Similarity.total_ofFunction (Similarity.cosineScore 0.0) true true)
    (Truncation.factory ⟨1, 0.0⟩ (.ofList [1])) 0
  refine ⟨hincomplete, j, ?_⟩
  cases result with
  | ok m => exact absurd (hends.mp ⟨m, rfl⟩) hincomplete
  | error e =>
    obtain ⟨⟨item, rfl, hlacks⟩, -⟩ := herror e rfl
    have hitem : item = 9 := by
      rcases hlacks with ⟨hnone, hitem | ⟨first, hfirst⟩⟩ | ⟨hstranger, other, hother | hother⟩
      · obtain rfl : item = 1 := by simpa [c] using hitem
        simp [hvector] at hnone
      · exact ((hdue first item).mp hfirst).2
      · exact absurd (ItemSet.mem_toList_ofList.mpr (by simp [((hdue item other).mp hother).1]))
          hstranger
      · exact ((hdue other item).mp hother).2
    rw [← hitem]
    exact hrun

end Strategy

end ItemNeighbors
