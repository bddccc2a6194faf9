import ItemNeighbors.Proofs.MatrixShape

/-!
# Pairs with a common user

On a frozen transposition the strategies that look up the sets of users do what those that score all
pairs do, in the same order, but for the pairs without a common user.

- `Snapshot.CoRated`: some listed user rated both items.
- `Journal.Thins`: a journal has of another one what concerns the pairs with a common user.
- `Strategy.filter_eventsFrom_ofFunction`: the events of the pairs that are kept.
- `BuildContext.Frozen.pairs_eq_filter`: the pairs of a sparse strategy.
- `Strategy.sparse_runs_thin`: the journals of the runs.
-/

namespace ItemNeighbors

/-- Some listed user rated both items. -/
def Snapshot.CoRated (s : Snapshot) (i j : ItemId) : Prop :=
  ∃ user ∈ s.userIds, (∃ r ∈ s.ratingsOf user, r.item = i) ∧ ∃ r ∈ s.ratingsOf user, r.item = j

instance (s : Snapshot) (i j : ItemId) : Decidable (s.CoRated i j) :=
  inferInstanceAs (Decidable (∃ user ∈ s.userIds,
    (∃ r ∈ s.ratingsOf user, r.item = i) ∧ ∃ r ∈ s.ratingsOf user, r.item = j))

theorem Snapshot.coRated_comm {s : Snapshot} {i j : ItemId} : s.CoRated i j ↔ s.CoRated j i := by
  simp only [CoRated, and_comm]

/-- The items that an event is about. -/
def Event.items : Event → ItemId × ItemId
  | .asked item other _ _ => (item, other)
  | .put item other _ => (item, other)

/-- The accumulator accepts all puts between these items, however many. -/
def ScoreAccumulator.AcceptsAll {α : Type} [ScoreAccumulator α] (acc : α) (items : ItemSet) :
    Prop :=
  ∀ puts : List Put, (∀ p ∈ puts, p.1 ∈ items.toList ∧ p.2.1 ∈ items.toList) →
    ∃ acc', putAll acc puts = .ok acc'

/-- The journal of a run of `s` has those events of another journal that are about items with a
common user, and each pair once. -/
structure Journal.Thins (snapshot : Snapshot) (s : Strategy) (j full : Journal) : Prop where
  events : j.events.toList =
    full.events.toList.filter fun e => snapshot.CoRated e.items.1 e.items.2
  mem_askedPairs : ∀ item other, (item, other) ∈ j.askedPairs ↔
    s.admits item other = true ∧ snapshot.CoRated item other
  nodup_askedPairs : j.askedPairs.Nodup
  nodup_puts : (j.puts.map Put.address).Nodup

namespace Strategy

variable {s thin full : Strategy} {f : SparseVector → SparseVector → Float} {c : BuildContext}

/-- All events of a pair are about its two items. -/
theorem items_of_mem_filings {item other : ItemId} {score : Float} {e : Event}
    (he : e ∈ (s.filings item other score).map fun p => Event.put p.1 p.2.1 p.2.2) :
    e.items = (item, other) ∨ e.items = (other, item) := by
  obtain ⟨p, hp, rfl⟩ := List.mem_map.mp he
  unfold filings at hp
  split at hp
  · rcases List.mem_pair.mp hp with rfl | rfl
    · exact .inl rfl
    · exact .inr rfl
  · obtain rfl := List.mem_singleton.mp hp
    exact .inl rfl

/-- Leaving out pairs leaves out their events. -/
theorem filter_eventsFrom_ofFunction {P : ItemId → ItemId → Bool} (hP : ∀ i j, P i j = P j i)
    (hsym : thin.isSymmetric = full.isSymmetric) (isSparse isSymmetric : Bool) (n n' : Nat)
    (pairs : List (ItemId × ItemId)) :
    thin.eventsFrom (.ofFunction f isSparse isSymmetric) c n (pairs.filter fun p => P p.1 p.2) =
      (full.eventsFrom (.ofFunction f isSparse isSymmetric) c n' pairs).filter
        fun e => P e.items.1 e.items.2 := by
  induction pairs generalizing n n' with
  | nil => rfl
  | cons pair pairs ih =>
    obtain ⟨item, other⟩ := pair
    have hfilings : thin.filings = full.filings := by
      unfold filings
      rw [hsym]
    have hpair : ∀ e ∈ Event.asked item other (c.vectorOf item) (c.vectorOf other) ::
        (full.filings item other (f (c.vectorOf item) (c.vectorOf other))).map
          (fun p => Event.put p.1 p.2.1 p.2.2), P e.items.1 e.items.2 = P item other := by
      intro e he
      rcases List.mem_cons.mp he with rfl | he
      · rfl
      · rcases items_of_mem_filings he with heq | heq
        · rw [heq]
        · rw [heq, hP]
    rw [List.filter_cons, eventsFrom, List.filter_append]
    by_cases hkept : P item other = true
    · have hall := List.filter_eq_self.mpr fun e he => (hpair e he).trans hkept
      -- the kept pair is the next one of both runs
      rw [if_pos hkept, eventsFrom, ih (n + 1) (n' + 1), hfilings]
      exact congrArg (· ++ _) hall.symm
    · have hnone := List.filter_eq_nil_iff.mpr fun e he => (hpair e he).symm ▸ hkept
      rw [if_neg hkept, ih n (n' + 1)]
      exact (congrArg (· ++ _) hnone).symm

end Strategy

namespace BuildContext.Frozen

variable {snapshot : Snapshot} {c : BuildContext} {i j : ItemId} {thin full : Strategy}

theorem mem_items_of_coRated {collect : Bool} (h : c.Frozen snapshot collect)
    (hrated : snapshot.CoRated i j) : i ∈ c.items.toList ∧ j ∈ c.items.toList := by
  obtain ⟨user, huser, hi, hj⟩ := hrated
  exact ⟨h.declared user huser i (Snapshot.mem_itemsOf.mpr hi),
    h.declared user huser j (Snapshot.mem_itemsOf.mpr hj)⟩

/-- The vectors of two items have a common key exactly if a listed user rated both. -/
theorem overlaps_eq_decide_coRated {collect : Bool} (h : c.Frozen snapshot collect)
    (hi : i ∈ c.items.toList) (hj : j ∈ c.items.toList) :
    (c.vectorOf i).overlaps (c.vectorOf j) = decide (snapshot.CoRated i j) := by
  rw [Bool.eq_iff_iff, SparseVector.overlaps_iff, decide_eq_true_iff]
  simp only [h.mem_keys_vectorOf hi, h.mem_keys_vectorOf hj, Snapshot.mem_itemsOf,
    Snapshot.CoRated]
  constructor
  · rintro ⟨user, ⟨huser, hri⟩, -, hrj⟩
    exact ⟨user, huser, hri, hrj⟩
  · rintro ⟨user, huser, hri, hrj⟩
    exact ⟨user, ⟨huser, hri⟩, huser, hrj⟩

/-- A sparse strategy scores the pairs with a common user among those of the strategy that scores
all pairs and files them in the same directions. -/
theorem pairs_eq_filter (h : c.Frozen snapshot true) (hthin : thin.isSparse = true)
    (hfull : full.isSparse = false) (hsym : thin.isSymmetric = full.isSymmetric) :
    thin.pairs c = (full.pairs c).filter fun p => snapshot.CoRated p.1 p.2 := by
  rw [h.pairs_eq fun _ => rfl, h.pairs_eq fun _ => rfl, List.filter_flatMap]
  refine List.flatMap_congr fun item hitem => ?_
  rw [List.filter_map, List.filter_filter]
  refine congrArg _ (List.filter_congr fun other hother => ?_)
  simp [Strategy.scores, Strategy.admits, hthin, hfull, hsym,
    h.overlaps_eq_decide_coRated hitem hother, Bool.and_comm]

theorem mem_pairs_iff {s : Strategy} (h : c.Frozen snapshot true) (hs : s.isSparse = true) :
    (i, j) ∈ s.pairs c ↔ s.admits i j = true ∧ snapshot.CoRated i j := by
  rw [h.pairs_eq fun _ => rfl]
  simp only [List.mem_flatMap, List.mem_map, List.mem_filter, Strategy.scores, hs, Bool.not_true,
    Bool.false_or, Bool.and_eq_true]
  constructor
  · rintro ⟨_, hi, _, ⟨hj, hadmits, hshared⟩, heq⟩
    cases heq
    rw [h.overlaps_eq_decide_coRated hi hj, decide_eq_true_iff] at hshared
    exact ⟨hadmits, hshared⟩
  · rintro ⟨hadmits, hrated⟩
    obtain ⟨hi, hj⟩ := h.mem_items_of_coRated hrated
    refine ⟨i, hi, j, ⟨hj, hadmits, ?_⟩, rfl⟩
    rwa [h.overlaps_eq_decide_coRated hi hj, decide_eq_true_iff]

end BuildContext.Frozen

/-- One that truncates accepts what is between members of its universe. -/
theorem NeighborAccumulator.acceptsAll_iff {acc : NeighborAccumulator} {items : ItemSet} :
    ScoreAccumulator.AcceptsAll acc items ↔ ∀ item ∈ items.toList, item ∈ acc.items.toList := by
  constructor
  · intro h item hitem
    obtain ⟨acc', hputs⟩ := h [(item, item, 0.0)] (by simp [hitem])
    exact (mem_of_putAll_eq_ok hputs _ (List.mem_singleton_self _)).1
  · intro h puts hputs
    exact exists_putAll_eq_ok acc fun p hp => (hputs p hp).imp (h _) (h _)

namespace Strategy

variable {α : Type} [ScoreAccumulator α]

/-- The run of a sparse strategy and that of the strategy that scores all pairs and files them in
the same directions. -/
theorem exists_thin_runs {snapshot : Snapshot} {c : BuildContext} (h : c.Frozen snapshot true)
    (thin full : Strategy) (hthin : thin.isSparse = true) (hfull : full.isSparse = false)
    (hsym : thin.isSymmetric = full.isSymmetric) (f : SparseVector → SparseVector → Float)
    (isSparse isSymmetric : Bool) {acc : α} (haccepts : ScoreAccumulator.AcceptsAll acc c.items)
    (asked : Nat) :
    ∃ m j m' j',
      (thin.buildMatrix (.ofFunction f isSparse isSymmetric) c acc).run (.start asked) =
          (.ok m, j) ∧
        (full.buildMatrix (.ofFunction f isSparse isSymmetric) c acc).run (.start asked) =
            (.ok m', j') ∧
          j.Thins snapshot thin j' := by
  have hends : ∀ s : Strategy, ∃ m j,
      (s.buildMatrix (.ofFunction f isSparse isSymmetric) c acc).run (.start asked) =
        (.ok m, j) := by
    intro s
    have hscorable : s.Scorable c c.items := h.scorable fun _ => rfl
    obtain ⟨acc', hputs⟩ := haccepts _ fun _ hp => hscorable.of_mem_putsFrom hp
    exact ⟨_, _, hscorable.run_eq_ok (Similarity.total_ofFunction f _ _) hputs⟩
  obtain ⟨m, j, hrun⟩ := hends thin
  obtain ⟨m', j', hrun'⟩ := hends full
  refine ⟨m, j, m', j', hrun, hrun', ?_⟩
  constructor
  · rw [events_of_run hrun, events_of_run hrun', h.pairs_eq_filter hthin hfull hsym]
    exact filter_eventsFrom_ofFunction (P := fun i j => decide (snapshot.CoRated i j))
      (fun _ _ => decide_eq_decide.mpr Snapshot.coRated_comm) hsym _ _ _ _ _
  · intro item other
    rw [askedPairs_of_run hrun, h.mem_pairs_iff hthin]
  · rw [askedPairs_of_run hrun]
    exact nodup_pairs thin c
  · rw [puts_of_run hrun]
    exact nodup_map_address_putsFrom _ _

/-- **A sparse run leaves out the pairs without a common user and nothing else**, whatever the
scores and the accumulator: of the calls and puts of the run that scores all pairs it makes the
others, in the same order. -/
theorem sparse_runs_thin {snapshot : Snapshot} {items : ItemSet} {tr : TransposedRatings}
    (htr : snapshot.transpose items true = .ok tr) (f : SparseVector → SparseVector → Float)
    (isSparse isSymmetric : Bool) {factory : AccumulatorFactory α}
    (haccepts : ScoreAccumulator.AcceptsAll (factory items) items) (asked : Nat) :
    let run := fun s : Strategy => (s.buildMatrix (.ofFunction f isSparse isSymmetric)
      (.freeze items tr) (factory items)).run (.start asked)
    (∃ m j m' j', run .sparse = (.ok m, j) ∧ run .simple = (.ok m', j') ∧
        j.Thins snapshot .sparse j') ∧
      ∃ m j m' j', run .sparseSymmetric = (.ok m, j) ∧ run .symmetric = (.ok m', j') ∧
        j.Thins snapshot .sparseSymmetric j' :=
  have hfrozen := BuildContext.frozen_of_transpose htr
  ⟨exists_thin_runs hfrozen .sparse .simple rfl rfl rfl f isSparse isSymmetric haccepts asked,
    exists_thin_runs hfrozen .sparseSymmetric .symmetric rfl rfl rfl f isSparse isSymmetric
      haccepts asked⟩

/-- Of three items, two of which a user who is listed twice has rated, the sparse run asks for these
two. -/
theorem sparse_runs_thin_of_repeated_user :
    let snapshot : Snapshot :=
      { userIds := [7, 8, 7]
        itemIds := [1, 2, 3]
        ratingsOf := fun user =>
          if user = 7 then [⟨7, 1, 4.0⟩, ⟨7, 2, 3.0⟩, ⟨7, 1, 2.0⟩] else [⟨8, 3, 5.0⟩] }
    ∃ tr, snapshot.transpose (.ofList [1, 2, 3]) true = .ok tr ∧
      let run := fun s : Strategy => (s.buildMatrix (.pearson 0.0) (.freeze (.ofList [1, 2, 3]) tr)
        (Truncation.factory ⟨1, 0.0⟩ (.ofList [1, 2, 3]))).run (.start 0)
      ∃ m j m' j', run .sparse = (.ok m, j) ∧ run .simple = (.ok m', j') ∧
        j.Thins snapshot .sparse j' ∧ (1, 2) ∈ j.askedPairs ∧ (1, 3) ∉ j.askedPairs := by
  intro snapshot
  have hknown : snapshot.stray? (.ofList [1, 2, 3]) = none := by
    rw [Snapshot.stray?_eq_none_iff]
    simp [snapshot, ItemSet.contains_iff]
  obtain ⟨tr, htr, -⟩ := Snapshot.exists_transpose_eq_ok hknown true
  have haccepts : ScoreAccumulator.AcceptsAll
      (Truncation.factory ⟨1, 0.0⟩ (.ofList [1, 2, 3])) (.ofList [1, 2, 3]) :=
    NeighborAccumulator.acceptsAll_iff.mpr fun _ hitem => hitem
  obtain ⟨⟨m, j, m', j', hrun, hrun', hthins⟩, -⟩ :=
    sparse_runs_thin htr (Similarity.pearsonScore 0.0) false true haccepts 0
  refine ⟨tr, htr, m, j, m', j', hrun, hrun', hthins, ?_, ?_⟩
  · rw [hthins.mem_askedPairs]
    decide
  · rw [hthins.mem_askedPairs]
    decide

end Strategy

end ItemNeighbors
