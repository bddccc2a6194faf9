import ItemNeighbors.Proofs.ScoringRuns

/-!
# What a finished run has done

Whatever the context, the similarity and the accumulator: a run that comes to its end has asked for
the pairs of its strategy and filed scores at their addresses, in their order, and every put was
accepted.

- `Strategy.addresses`: the addresses of a run.
- `Strategy.exists_puts_of_run`: a finished run is a sequence of accepted puts.
- `Strategy.events_of_run`, `Strategy.askedPairs_of_run`, `Strategy.puts_of_run`: what its journal
  records.
-/

namespace ItemNeighbors

/-- The items that the similarity was asked to score, if the event is a question. -/
def Event.askedPair? : Event → Option (ItemId × ItemId)
  | .asked item other _ _ => some (item, other)
  | .put .. => none

/-- The put, if the event is one. -/
def Event.put? : Event → Option Put
  | .put item other score => some (item, other, score)
  | .asked .. => none

/-- The pairs that the similarity was asked to score, in order. -/
def Journal.askedPairs (j : Journal) : List (ItemId × ItemId) :=
  j.events.toList.filterMap Event.askedPair?

namespace Strategy

open Scoring

variable {α : Type} [ScoreAccumulator α] {s : Strategy} {sim : Similarity} {c : BuildContext}
  {acc : α} {m : SimilarityMatrix} {j j' : Journal}

/-- Where the scores of a turn are filed. -/
def turnAddresses (s : Strategy) (c : BuildContext) (item : ItemId) : List (ItemId × ItemId) :=
  (s.partnersOf c item).flatMap (s.directions item)

/-- Where the scores of a run are filed, in order. -/
def addresses (s : Strategy) (c : BuildContext) : List (ItemId × ItemId) :=
  c.items.toList.flatMap (s.turnAddresses c)

theorem addresses_eq_flatMap_pairs :
    s.addresses c = (s.pairs c).flatMap fun p => s.directions p.1 p.2 := by
  simp only [pairs, List.flatMap_assoc, List.flatMap_map]
  rfl

/-- **A finished run is a sequence of accepted puts** at the addresses of its strategy. -/
theorem exists_puts_of_run (h : (s.buildMatrix sim c acc).run j = (.ok m, j')) :
    ∃ (puts : List Put) (acc' : α), puts.map Put.address = s.addresses c ∧
      ScoreAccumulator.putAll acc puts = .ok acc' ∧ ScoreAccumulator.toMatrix acc' = m := by
  obtain ⟨-, ⟨acc', hfinishes, hm⟩, -⟩ := run_buildMatrix_eq_ok_iff.mp h
  exact ⟨_, acc', by rw [map_address_putsFrom, addresses_eq_flatMap_pairs], hfinishes.accepted, hm⟩

/-- The matrix of a finished run has the universe of the accumulator. -/
theorem items_of_run {acc : NeighborAccumulator}
    (h : (s.buildMatrix sim c acc).run j = (.ok m, j')) : m.items = acc.items := by
  obtain ⟨puts, acc', -, hputs, rfl⟩ := exists_puts_of_run h
  exact NeighborAccumulator.items_of_putAll_eq_ok hputs

/-! ## The journal of a finished run -/

theorem filterMap_askedPair?_eventsFrom (n : Nat) (pairs : List (ItemId × ItemId)) :
    (s.eventsFrom sim c n pairs).filterMap Event.askedPair? = pairs := by
  induction pairs generalizing n with
  | nil => rfl
  | cons pair pairs ih =>
    -- the puts of the first pair are no questions
    simp [eventsFrom, List.filterMap_append, List.filterMap_map, Function.comp_def,
      Event.askedPair?, ih]

theorem filterMap_put?_eventsFrom (n : Nat) (pairs : List (ItemId × ItemId)) :
    (s.eventsFrom sim c n pairs).filterMap Event.put? = s.putsFrom sim c n pairs := by
  induction pairs generalizing n with
  | nil => rfl
  | cons pair pairs ih =>
    have hput : Event.put? ∘ (fun p : Put => Event.put p.1 p.2.1 p.2.2) = some := rfl
    rw [eventsFrom, List.cons_append, List.filterMap_cons_none rfl, List.filterMap_append,
      List.filterMap_map, hput, List.filterMap_some, ih, putsFrom]

variable {asked : Nat}

/-- The journal of a finished run holds the events of its pairs and nothing else. -/
theorem events_of_run (h : (s.buildMatrix sim c acc).run (.start asked) = (.ok m, j')) :
    j'.events.toList = s.eventsFrom sim c asked (s.pairs c) := by
  obtain ⟨-, -, rfl⟩ := run_buildMatrix_eq_ok_iff.mp h
  show ((#[] : Array Event) ++ s.eventsFrom sim c asked (s.pairs c)).toList = _
  rw [Array.toList_appendList]
  rfl

theorem askedPairs_of_run (h : (s.buildMatrix sim c acc).run (.start asked) = (.ok m, j')) :
    j'.askedPairs = s.pairs c := by
  rw [Journal.askedPairs, events_of_run h, filterMap_askedPair?_eventsFrom]

/-- As many calls were made as pairs were asked for. -/
theorem asked_of_run (h : (s.buildMatrix sim c acc).run (.start asked) = (.ok m, j')) :
    j'.asked = asked + j'.askedPairs.length := by
  rw [askedPairs_of_run h]
  obtain ⟨-, -, rfl⟩ := run_buildMatrix_eq_ok_iff.mp h
  rfl

theorem puts_of_run (h : (s.buildMatrix sim c acc).run (.start asked) = (.ok m, j')) :
    j'.puts = s.putsFrom sim c asked (s.pairs c) := by
  show j'.events.toList.filterMap Event.put? = _
  rw [events_of_run h, filterMap_put?_eventsFrom]

end Strategy

end ItemNeighbors
