import ItemNeighbors.Proofs.FiledScores
import ItemNeighbors.Strategy.Scoring

/-!
# Scoring runs as functions of their pairs

A run that nothing stops is decided by the pairs it goes through: they fix the questions to the
similarity, the puts and their order, and so the matrix and the journal.

- `Strategy.pairs`: the pairs of a run in order.
- `Strategy.putsFrom`, `Strategy.eventsFrom`: the puts and the events that some pairs lead to.
- `Strategy.Found`, `Strategy.Finishes`: what it takes that nothing stops a run.
- `Strategy.run_buildMatrix_eq_ok_iff`: the runs that come to an end, and what they return.
- `Strategy.Scorable`, `Strategy.run_buildMatrix`: a run that finds whatever it looks up and whose
  calls are answered.
-/

namespace ItemNeighbors

/-- The vector of an item, the empty one if there is none. -/
def BuildContext.vectorOf (c : BuildContext) (item : ItemId) : SparseVector :=
  (c.itemVector? item).getD ∅

theorem BuildContext.itemVector?_eq_some {c : BuildContext} {item : ItemId}
    (h : (c.itemVector? item).isSome = true) : c.itemVector? item = some (c.vectorOf item) := by
  obtain ⟨vector, hvector⟩ := Option.isSome_iff_exists.mp h
  rw [vectorOf, hvector, Option.getD_some]

theorem BuildContext.itemVector_eq_ok_iff {c : BuildContext} {item : ItemId}
    {vector : SparseVector} :
    c.itemVector item = .ok vector ↔
      (c.itemVector? item).isSome = true ∧ vector = c.vectorOf item := by
  rw [itemVector, vectorOf]
  cases c.itemVector? item with
  | none => simp
  | some v => simp [eq_comm]

namespace Similarity

/-- The similarity answers every call. -/
def Total (sim : Similarity) : Prop := ∀ n a b, (sim.score n a b).isSome = true

/-- What a similarity answers after `n` calls. -/
def answer (sim : Similarity) (n : Nat) (a b : SparseVector) : Float :=
  (sim.score n a b).getD 0.0

theorem answer_eq {sim : Similarity} {n : Nat} {a b : SparseVector} {score : Float}
    (h : sim.score n a b = some score) : sim.answer n a b = score := by
  rw [answer, h, Option.getD_some]

theorem Total.score_eq {sim : Similarity} (h : sim.Total) (n : Nat) (a b : SparseVector) :
    sim.score n a b = some (sim.answer n a b) := by
  obtain ⟨score, hscore⟩ := Option.isSome_iff_exists.mp (h n a b)
  rw [hscore, answer_eq hscore]

/-- The similarity answers for some pairs, if it was asked `n` times before. -/
def Answers (sim : Similarity) (c : BuildContext) : Nat → List (ItemId × ItemId) → Prop
  | _, [] => True
  | n, (item, other) :: pairs =>
    (sim.score n (c.vectorOf item) (c.vectorOf other)).isSome = true ∧
      sim.Answers c (n + 1) pairs

theorem answers_append {sim : Similarity} {c : BuildContext} {n : Nat}
    {p q : List (ItemId × ItemId)} :
    sim.Answers c n (p ++ q) ↔ sim.Answers c n p ∧ sim.Answers c (n + p.length) q := by
  induction p generalizing n with
  | nil => simp [Answers]
  | cons pair p ih =>
    rw [List.cons_append, Answers, Answers, ih, and_assoc, List.length_cons, Nat.add_assoc,
      Nat.add_comm 1]

theorem Total.answers {sim : Similarity} (h : sim.Total) (c : BuildContext) (n : Nat)
    (pairs : List (ItemId × ItemId)) : sim.Answers c n pairs := by
  induction pairs generalizing n with
  | nil => trivial
  | cons pair pairs ih => exact ⟨h _ _ _, ih (n + 1)⟩

/-- A function answers every call. -/
theorem total_ofFunction (f : SparseVector → SparseVector → Float) (isSparse isSymmetric : Bool) :
    (ofFunction f isSparse isSymmetric).Total :=
  fun _ _ _ => rfl

end Similarity

namespace Scoring

variable {α β : Type} {j j' : Journal}

/-! ## The steps of a run -/

theorem run_bind_ok {x : Scoring α} {f : α → Scoring β} {a : α} (h : x.run j = (.ok a, j')) :
    (x >>= f).run j = (f a).run j' := by
  -- the journal is threaded below the failures, so both parts of the result are there at once
  show (fun p : Except BuildFailure α × Journal => ExceptT.bindCont f p.1 p.2) (x.run j) = _
  rw [h]
  rfl

theorem run_bind_error {x : Scoring α} {f : α → Scoring β} {e : BuildFailure}
    (h : x.run j = (.error e, j')) : (x >>= f).run j = (.error e, j') := by
  show (fun p : Except BuildFailure α × Journal => ExceptT.bindCont f p.1 p.2) (x.run j) = _
  rw [h]
  rfl

/-- A success of two parts is a success of each. -/
theorem exists_of_run_bind_eq_ok {x : Scoring α} {f : α → Scoring β} {b : β}
    (h : (x >>= f).run j = (.ok b, j')) :
    ∃ a j₁, x.run j = (.ok a, j₁) ∧ (f a).run j₁ = (.ok b, j') := by
  rcases hx : x.run j with ⟨result, j₁⟩
  cases result with
  | ok a => exact ⟨a, j₁, rfl, by rwa [run_bind_ok hx] at h⟩
  | error e =>
    rw [run_bind_error hx] at h
    cases h

theorem run_bind_eq_ok_iff {x : Scoring α} {f : α → Scoring β} {b : β} :
    (x >>= f).run j = (.ok b, j') ↔
      ∃ a j₁, x.run j = (.ok a, j₁) ∧ (f a).run j₁ = (.ok b, j') := by
  constructor
  · exact exists_of_run_bind_eq_ok
  · rintro ⟨a, j₁, hx, hf⟩
    rw [run_bind_ok hx, hf]

theorem run_pure_eq_ok_iff {a b : α} :
    (pure a : Scoring α).run j = (.ok b, j') ↔ a = b ∧ j' = j := by
  constructor
  · intro h
    cases h
    exact ⟨rfl, rfl⟩
  · rintro ⟨rfl, rfl⟩
    rfl

theorem run_get : (get : Scoring Journal).run j = (.ok j, j) := rfl

theorem run_modify (f : Journal → Journal) :
    (modify f : Scoring Unit).run j = (.ok (), f j) := rfl

theorem run_note (n : BuildNote) :
    (note n).run j = (.ok (), { j with notes := j.notes.push n }) := rfl

theorem run_require_ok {result : Except BuildError α} {a : α} (h : result = .ok a) :
    (require result).run j = (.ok a, j) := by
  rw [h]
  rfl

theorem run_require_error {result : Except BuildError α} {e : BuildError}
    (h : result = .error e) : (require result).run j = (.error (.refused e), j) := by
  rw [h]
  rfl

theorem eq_ok_of_run_require {result : Except BuildError α} {a : α}
    (h : (require result).run j = (.ok a, j')) : result = .ok a ∧ j' = j := by
  cases result with
  | ok b =>
    cases h
    exact ⟨rfl, rfl⟩
  | error e => cases h

theorem run_require_eq_ok_iff {result : Except BuildError α} {a : α} :
    (require result).run j = (.ok a, j') ↔ result = .ok a ∧ j' = j := by
  constructor
  · exact eq_ok_of_run_require
  · rintro ⟨h, rfl⟩
    exact run_require_ok h

/-- A similarity that always answers is asked without failure. -/
theorem run_ask {sim : Similarity} (hsim : sim.Total) {item other : ItemId} {a b : SparseVector} :
    (ask sim item other a b).run j =
      (.ok (sim.answer j.asked a b),
        { j with asked := j.asked + 1, events := j.events.push (.asked item other a b) }) := by
  unfold ask
  rw [run_bind_ok run_get, run_bind_ok (run_modify _), hsim.score_eq]
  rfl

/-- When a question gets an answer. -/
theorem run_ask_eq_ok_iff {sim : Similarity} {item other : ItemId} {a b : SparseVector}
    {score : Float} :
    (ask sim item other a b).run j = (.ok score, j') ↔
      sim.score j.asked a b = some score ∧
        j' = { j with
          asked := j.asked + 1
          events := j.events.push (.asked item other a b) } := by
  unfold ask
  rw [run_bind_ok run_get, run_bind_ok (run_modify _)]
  cases sim.score j.asked a b with
  | none =>
    constructor
    · intro h
      cases h
    · rintro ⟨h, -⟩
      cases h
  | some answer =>
    constructor
    · intro h
      cases h
      exact ⟨rfl, rfl⟩
    · rintro ⟨h, rfl⟩
      cases h
      rfl

/-- When a put is accepted. -/
theorem run_put_eq_ok_iff [ScoreAccumulator α] {acc acc' : α} {item other : ItemId}
    {score : Float} :
    (put acc item other score).run j = (.ok acc', j') ↔
      ScoreAccumulator.put acc item other score = .ok acc' ∧
        j' = { j with events := j.events.push (.put item other score) } := by
  unfold put
  rw [run_bind_ok (run_modify _), run_require_eq_ok_iff]

end Scoring

namespace Strategy

open Scoring

/-! ## What pairs lead to -/

/-- The puts by which the score of a pair is filed. -/
def filings (s : Strategy) (item other : ItemId) (score : Float) : List Put :=
  if s.isSymmetric then [(item, other, score), (other, item, score)] else [(item, other, score)]

/-- Where the score of a pair is filed. -/
def directions (s : Strategy) (item other : ItemId) : List (ItemId × ItemId) :=
  if s.isSymmetric then [(item, other), (other, item)] else [(item, other)]

/-- The puts that some pairs lead to, if the similarity was asked `n` times before. -/
def putsFrom (s : Strategy) (sim : Similarity) (c : BuildContext) :
    Nat → List (ItemId × ItemId) → List Put
  | _, [] => []
  | n, (item, other) :: pairs =>
    s.filings item other (sim.answer n (c.vectorOf item) (c.vectorOf other))
      ++ s.putsFrom sim c (n + 1) pairs

/-- The events that some pairs lead to, if the similarity was asked `n` times before. -/
def eventsFrom (s : Strategy) (sim : Similarity) (c : BuildContext) :
    Nat → List (ItemId × ItemId) → List Event
  | _, [] => []
  | n, (item, other) :: pairs =>
    let a := c.vectorOf item
    let b := c.vectorOf other
    .asked item other a b
      :: (s.filings item other (sim.answer n a b)).map (fun p => Event.put p.1 p.2.1 p.2.2)
      ++ s.eventsFrom sim c (n + 1) pairs

/-- The journal after some pairs. -/
def journalFrom (s : Strategy) (sim : Similarity) (c : BuildContext) (j : Journal)
    (pairs : List (ItemId × ItemId)) : Journal :=
  { j with
    asked := j.asked + pairs.length
    filed := j.filed + pairs.length
    events := j.events ++ s.eventsFrom sim c j.asked pairs }

variable {s : Strategy} {sim : Similarity} {c : BuildContext}

theorem putsFrom_append (n : Nat) (p q : List (ItemId × ItemId)) :
    s.putsFrom sim c n (p ++ q) =
      s.putsFrom sim c n p ++ s.putsFrom sim c (n + p.length) q := by
  induction p generalizing n with
  | nil => rfl
  | cons pair p ih =>
    -- the second list is scored after one call more for each pair of the first
    rw [List.cons_append, putsFrom, putsFrom, ih, List.append_assoc, List.length_cons,
      Nat.add_assoc, Nat.add_comm 1]

theorem eventsFrom_append (n : Nat) (p q : List (ItemId × ItemId)) :
    s.eventsFrom sim c n (p ++ q) =
      s.eventsFrom sim c n p ++ s.eventsFrom sim c (n + p.length) q := by
  induction p generalizing n with
  | nil => rfl
  | cons pair p ih =>
    rw [List.cons_append, eventsFrom, eventsFrom, ih, List.append_assoc, List.length_cons,
      Nat.add_assoc, Nat.add_comm 1]

theorem journalFrom_append (j : Journal) (p q : List (ItemId × ItemId)) :
    s.journalFrom sim c j (p ++ q) = s.journalFrom sim c (s.journalFrom sim c j p) q := by
  have hevents : j.events ++ (s.eventsFrom sim c j.asked p
        ++ s.eventsFrom sim c (j.asked + p.length) q) =
      j.events ++ s.eventsFrom sim c j.asked p ++ s.eventsFrom sim c (j.asked + p.length) q := by
    simp [← Array.toList_inj]
  simp only [journalFrom, eventsFrom_append, List.length_append, Nat.add_assoc, hevents]

/-- The addresses of the puts do not depend on the scores. -/
theorem map_address_putsFrom (n : Nat) (pairs : List (ItemId × ItemId)) :
    (s.putsFrom sim c n pairs).map Put.address =
      pairs.flatMap fun p => s.directions p.1 p.2 := by
  induction pairs generalizing n with
  | nil => rfl
  | cons pair pairs ih =>
    rw [putsFrom, List.map_append, ih, List.flatMap_cons]
    congr 1
    unfold filings directions
    split <;> rfl

@[simp] theorem journalFrom_nil (j : Journal) : s.journalFrom sim c j [] = j := by
  simp [journalFrom, eventsFrom]

/-- The puts of a function do not depend on how often it was called before. -/
theorem putsFrom_ofFunction (f : SparseVector → SparseVector → Float)
    (isSparse isSymmetric : Bool) (n : Nat) (pairs : List (ItemId × ItemId)) :
    s.putsFrom (.ofFunction f isSparse isSymmetric) c n pairs =
      pairs.flatMap fun p => s.filings p.1 p.2 (f (c.vectorOf p.1) (c.vectorOf p.2)) := by
  induction pairs generalizing n with
  | nil => rfl
  | cons pair pairs ih =>
    rw [putsFrom, ih, List.flatMap_cons]
    rfl

/-! ## Runs that come to an end -/

open ScoreAccumulator

variable {α : Type} [ScoreAccumulator α] {acc acc' : α} {item other : ItemId} {score : Float}
  {j j' : Journal}

/-- Filing a score comes to an end if its puts are accepted. -/
theorem run_file_eq_ok_iff :
    (s.file acc item other score).run j = (.ok acc', j') ↔
      putAll acc (s.filings item other score) = .ok acc' ∧
        j' = { j with
          filed := j.filed + 1
          events := j.events
            ++ (s.filings item other score).map fun p => Event.put p.1 p.2.1 p.2.2 } := by
  unfold file
  cases hsym : s.isSymmetric with
  | true =>
    simp only [hsym, if_true, run_bind_eq_ok_iff, run_put_eq_ok_iff, run_modify, filings,
      run_pure_eq_ok_iff, putAll_cons_eq_ok_iff, putAll_nil_eq_ok_iff]
    constructor
    · rintro ⟨acc₁, j₁, ⟨h₁, rfl⟩, acc₂, j₂, ⟨h₂, rfl⟩, ⟨⟩, j₃, h₃, rfl, rfl⟩
      cases h₃
      refine ⟨⟨acc₁, h₁, acc₂, h₂, rfl⟩, ?_⟩
      simp
    · rintro ⟨⟨acc₁, h₁, acc₂, h₂, rfl⟩, rfl⟩
      refine ⟨acc₁, _, ⟨h₁, rfl⟩, acc₂, _, ⟨h₂, rfl⟩, ⟨⟩, _, rfl, rfl, ?_⟩
      simp
  | false =>
    simp only [hsym, Bool.false_eq_true, if_false, run_bind_eq_ok_iff, run_put_eq_ok_iff,
      run_modify, filings, run_pure_eq_ok_iff, putAll_cons_eq_ok_iff, putAll_nil_eq_ok_iff]
    constructor
    · rintro ⟨acc₁, j₁, ⟨h₁, rfl⟩, acc₂, j₂, ⟨rfl, rfl⟩, ⟨⟩, j₃, h₃, rfl, rfl⟩
      cases h₃
      refine ⟨⟨_, h₁, rfl⟩, ?_⟩
      simp
    · rintro ⟨⟨_, h₁, rfl⟩, rfl⟩
      refine ⟨_, _, ⟨h₁, rfl⟩, _, _, ⟨rfl, rfl⟩, ⟨⟩, _, rfl, rfl, ?_⟩
      simp

/-- Nothing stops a run at these pairs that asked `n` questions before: the other vectors are there,
the questions are answered and the puts are accepted. -/
structure Finishes (s : Strategy) (sim : Similarity) (c : BuildContext)
    (pairs : List (ItemId × ItemId)) (n : Nat) (acc acc' : α) : Prop where
  vectors : ∀ p ∈ pairs, (c.itemVector? p.2).isSome = true
  answers : sim.Answers c n pairs
  accepted : putAll acc (s.putsFrom sim c n pairs) = .ok acc'

theorem finishes_nil_iff {n : Nat} : s.Finishes sim c [] n acc acc' ↔ acc = acc' := by
  rw [← putAll_nil_eq_ok_iff]
  exact ⟨fun h => h.accepted, fun h => ⟨by simp, trivial, h⟩⟩

/-- Two parts in sequence. -/
theorem finishes_append_iff {n : Nat} {p q : List (ItemId × ItemId)} :
    s.Finishes sim c (p ++ q) n acc acc' ↔
      ∃ acc₁, s.Finishes sim c p n acc acc₁ ∧ s.Finishes sim c q (n + p.length) acc₁ acc' := by
  constructor
  · rintro ⟨hvectors, hanswers, haccepted⟩
    obtain ⟨hp, hq⟩ := Similarity.answers_append.mp hanswers
    rw [putsFrom_append, putAll_append_eq_ok_iff] at haccepted
    obtain ⟨acc₁, hacc₁, hacc'⟩ := haccepted
    exact ⟨acc₁, ⟨fun a ha => hvectors a (List.mem_append_left q ha), hp, hacc₁⟩,
      ⟨fun a ha => hvectors a (List.mem_append_right p ha), hq, hacc'⟩⟩
  · rintro ⟨acc₁, hp, hq⟩
    refine ⟨fun a ha => ?_, Similarity.answers_append.mpr ⟨hp.answers, hq.answers⟩, ?_⟩
    · rcases List.mem_append.mp ha with ha | ha
      · exact hp.vectors a ha
      · exact hq.vectors a ha
    · rw [putsFrom_append, putAll_append_eq_ok_iff]
      exact ⟨acc₁, hp.accepted, hq.accepted⟩

/-- Scoring a pair. -/
theorem run_scorePair_eq_ok_iff :
    (s.scorePair sim c item (c.vectorOf item) acc other).run j = (.ok acc', j') ↔
      s.Finishes sim c [(item, other)] j.asked acc acc' ∧
        j' = s.journalFrom sim c j [(item, other)] := by
  unfold scorePair
  simp only [run_bind_eq_ok_iff, run_require_eq_ok_iff, BuildContext.itemVector_eq_ok_iff,
    run_ask_eq_ok_iff, run_file_eq_ok_iff]
  constructor
  · rintro ⟨b, j, ⟨⟨hvector, rfl⟩, rfl⟩, score, _, ⟨hscore, rfl⟩, hputs, rfl⟩
    have hanswer := Similarity.answer_eq hscore
    refine ⟨⟨by simpa using hvector, ⟨by simp [hscore], trivial⟩, ?_⟩, ?_⟩
    · rwa [putsFrom, putsFrom, List.append_nil, hanswer]
    · simp [journalFrom, eventsFrom, hanswer]
  · rintro ⟨⟨hvectors, ⟨hanswered, -⟩, hputs⟩, rfl⟩
    obtain ⟨score, hscore⟩ := Option.isSome_iff_exists.mp hanswered
    have hanswer := Similarity.answer_eq hscore
    have hvector : (c.itemVector? other).isSome = true := hvectors (item, other) (by simp)
    rw [putsFrom, putsFrom, List.append_nil, hanswer] at hputs
    refine ⟨_, _, ⟨⟨hvector, rfl⟩, rfl⟩, score, _, ⟨hscore, rfl⟩, hputs, ?_⟩
    simp [journalFrom, eventsFrom, hanswer]

/-- Parts of a run one after the other, each of which goes through some pairs and needs something
to be found before. -/
theorem run_foldlM_eq_ok_iff {β : Type} {f : α → β → Scoring α} {P : β → Prop}
    {g : β → List (ItemId × ItemId)}
    (hf : ∀ a acc acc' j j', (f acc a).run j = (.ok acc', j') ↔
      P a ∧ s.Finishes sim c (g a) j.asked acc acc' ∧ j' = s.journalFrom sim c j (g a))
    {l : List β} :
    (l.foldlM f acc).run j = (.ok acc', j') ↔
      (∀ a ∈ l, P a) ∧ s.Finishes sim c (l.flatMap g) j.asked acc acc' ∧
        j' = s.journalFrom sim c j (l.flatMap g) := by
  induction l generalizing acc j with
  | nil =>
    simp only [List.foldlM_nil, run_pure_eq_ok_iff, List.flatMap_nil, finishes_nil_iff,
      journalFrom_nil]
    simp
  | cons a l ih =>
    -- the rest starts from a journal that has counted the calls of the first part
    simp only [List.foldlM_cons, run_bind_eq_ok_iff, hf, ih, List.flatMap_cons,
      finishes_append_iff, journalFrom_append, List.forall_mem_cons]
    constructor
    · rintro ⟨acc₁, _, ⟨ha, hfirst, rfl⟩, hl, hrest, rfl⟩
      exact ⟨⟨ha, hl⟩, ⟨acc₁, hfirst, hrest⟩, rfl⟩
    · rintro ⟨⟨ha, hl⟩, ⟨acc₁, hfirst, hrest⟩, rfl⟩
      exact ⟨acc₁, _, ⟨ha, hfirst, rfl⟩, hl, hrest, rfl⟩

/-- The partners of an item, one after the other. -/
theorem run_scorePairs_eq_ok_iff {others : List ItemId} :
    (others.foldlM (s.scorePair sim c item (c.vectorOf item)) acc).run j = (.ok acc', j') ↔
      s.Finishes sim c (others.map (item, ·)) j.asked acc acc' ∧
        j' = s.journalFrom sim c j (others.map (item, ·)) := by
  have hpair : ∀ other (acc acc' : α) j j',
      (s.scorePair sim c item (c.vectorOf item) acc other).run j = (.ok acc', j') ↔
        True ∧ s.Finishes sim c [(item, other)] j.asked acc acc' ∧
          j' = s.journalFrom sim c j [(item, other)] := fun _ _ _ _ _ =>
    run_scorePair_eq_ok_iff.trans (iff_of_eq (true_and _)).symm
  rw [run_foldlM_eq_ok_iff hpair, List.map_eq_flatMap]
  simp

/-- The partners of an item, none if they cannot be found. -/
def partnersOf (s : Strategy) (c : BuildContext) (item : ItemId) : List ItemId :=
  match s.partners c item (c.vectorOf item) with
  | .ok others => others
  | .error _ => []

/-- The pairs of a run in the order in which they are scored. -/
def pairs (s : Strategy) (c : BuildContext) : List (ItemId × ItemId) :=
  c.items.toList.flatMap fun item => (s.partnersOf c item).map (item, ·)

/-- What the turn of an item looks up first is there. -/
structure Found (s : Strategy) (c : BuildContext) (item : ItemId) : Prop where
  vector : (c.itemVector? item).isSome = true
  partners : s.partners c item (c.vectorOf item) = .ok (s.partnersOf c item)

/-- The turn of an item. -/
theorem run_scoreItem_eq_ok_iff :
    (s.scoreItem sim c acc item).run j = (.ok acc', j') ↔
      s.Found c item ∧
        s.Finishes sim c ((s.partnersOf c item).map (item, ·)) j.asked acc acc' ∧
          j' = s.journalFrom sim c j ((s.partnersOf c item).map (item, ·)) := by
  unfold scoreItem
  simp only [run_bind_eq_ok_iff, run_require_eq_ok_iff, BuildContext.itemVector_eq_ok_iff]
  constructor
  · rintro ⟨vector, _, ⟨⟨hvector, rfl⟩, rfl⟩, others, j, ⟨hothers, rfl⟩, hrun⟩
    obtain rfl : s.partnersOf c item = others := by rw [partnersOf, hothers]
    exact ⟨⟨hvector, hothers⟩, run_scorePairs_eq_ok_iff.mp hrun⟩
  · rintro ⟨⟨hvector, hpartners⟩, hrun⟩
    exact ⟨_, j, ⟨⟨hvector, rfl⟩, rfl⟩, _, j, ⟨hpartners, rfl⟩,
      run_scorePairs_eq_ok_iff.mpr hrun⟩

/-- The turns of all items. -/
theorem run_scoreItems_eq_ok_iff :
    (c.items.toList.foldlM (s.scoreItem sim c) acc).run j = (.ok acc', j') ↔
      (∀ item ∈ c.items.toList, s.Found c item) ∧
        s.Finishes sim c (s.pairs c) j.asked acc acc' ∧
          j' = s.journalFrom sim c j (s.pairs c) :=
  run_foldlM_eq_ok_iff (P := s.Found c) (g := fun item => (s.partnersOf c item).map (item, ·))
    fun _ _ _ _ _ => run_scoreItem_eq_ok_iff

/-- The journal of a run that nothing stops, with the one note on the number of pairs. -/
def journalAfter (s : Strategy) (sim : Similarity) (c : BuildContext) (j : Journal) : Journal :=
  let pairs := s.pairs c
  { s.journalFrom sim c j pairs with
    notes := j.notes.push
      (if s.isSparse then .scoredCommon (j.filed + pairs.length) s.pairKind
        else .scoringAll (s.pairCount c.items.size) s.pairKind) }

/-- **When a run comes to an end**, what it returns and what it notes down. -/
theorem run_buildMatrix_eq_ok_iff {m : SimilarityMatrix} :
    (s.buildMatrix sim c acc).run j = (.ok m, j') ↔
      (∀ item ∈ c.items.toList, s.Found c item) ∧
        (∃ acc', s.Finishes sim c (s.pairs c) j.asked acc acc' ∧ toMatrix acc' = m) ∧
          j' = s.journalAfter sim c j := by
  unfold buildMatrix
  cases hsparse : s.isSparse with
  | true =>
    simp only [Bool.not_true, Bool.false_eq_true, if_false, if_true, run_bind_eq_ok_iff,
      run_scoreItems_eq_ok_iff, run_pure_eq_ok_iff, run_note, run_get]
    constructor
    · rintro ⟨acc', _, ⟨hfound, hscored, rfl⟩, _, _, h, _, _, h', rfl, rfl⟩
      cases h
      cases h'
      refine ⟨hfound, ⟨acc', hscored, rfl⟩, ?_⟩
      simp [journalAfter, hsparse, journalFrom]
    · rintro ⟨hfound, ⟨acc', hscored, rfl⟩, rfl⟩
      refine ⟨acc', _, ⟨hfound, hscored, rfl⟩, _, _, rfl, _, _, rfl, rfl, ?_⟩
      simp [journalAfter, hsparse, journalFrom]
  | false =>
    simp only [Bool.not_false, if_true, Bool.false_eq_true, if_false, run_bind_eq_ok_iff,
      run_scoreItems_eq_ok_iff, run_pure_eq_ok_iff, run_note]
    constructor
    · rintro ⟨_, _, h, acc', _, ⟨hfound, hscored, rfl⟩, rfl, rfl⟩
      cases h
      refine ⟨hfound, ⟨acc', hscored, rfl⟩, ?_⟩
      simp [journalAfter, hsparse, journalFrom]
    · rintro ⟨hfound, ⟨acc', hscored, rfl⟩, rfl⟩
      refine ⟨_, _, rfl, acc', _, ⟨hfound, hscored, rfl⟩, rfl, ?_⟩
      simp [journalAfter, hsparse, journalFrom]

/-! ## Runs that find what they look up -/

/-- Nothing that the turn of an item looks up is missing. -/
structure Ready (s : Strategy) (c : BuildContext) (members : ItemSet) (item : ItemId) :
    Prop where
  vector : (c.itemVector? item).isSome = true
  partners : s.partners c item (c.vectorOf item) = .ok (s.partnersOf c item)
  otherVector : ∀ other ∈ s.partnersOf c item, (c.itemVector? other).isSome = true
  mem : ∀ other ∈ s.partnersOf c item, item ∈ members.toList ∧ other ∈ members.toList

/-- Nothing that a run looks up is missing. -/
def Scorable (s : Strategy) (c : BuildContext) (members : ItemSet) : Prop :=
  ∀ item ∈ c.items.toList, s.Ready c members item

namespace Scorable

variable {members : ItemSet}

theorem of_mem_pairs (h : s.Scorable c members) {p : ItemId × ItemId} (hp : p ∈ s.pairs c) :
    (c.itemVector? p.2).isSome = true ∧ p.1 ∈ members.toList ∧ p.2 ∈ members.toList := by
  obtain ⟨item, hitem, hp⟩ := List.mem_flatMap.mp hp
  obtain ⟨other, hother, rfl⟩ := List.mem_map.mp hp
  exact ⟨(h item hitem).otherVector other hother, (h item hitem).mem other hother⟩

/-- All puts are between members. -/
theorem of_mem_putsFrom (h : s.Scorable c members) {n : Nat} {p : Put}
    (hp : p ∈ s.putsFrom sim c n (s.pairs c)) : p.1 ∈ members.toList ∧ p.2.1 ∈ members.toList := by
  have haddress : p.address ∈ (s.pairs c).flatMap fun q => s.directions q.1 q.2 := by
    rw [← map_address_putsFrom n]
    exact List.mem_map_of_mem hp
  obtain ⟨q, hq, hdirection⟩ := List.mem_flatMap.mp haddress
  obtain ⟨-, hitem, hother⟩ := h.of_mem_pairs hq
  have hboth : p.address = (q.1, q.2) ∨ p.address = (q.2, q.1) := by
    unfold directions at hdirection
    split at hdirection
    · simpa using hdirection
    · exact .inl (by simpa using hdirection)
  show p.address.1 ∈ members.toList ∧ p.address.2 ∈ members.toList
  rcases hboth with heq | heq
  · rw [heq]
    exact ⟨hitem, hother⟩
  · rw [heq]
    exact ⟨hother, hitem⟩

/-- A run ends if nothing is missing, the similarity answers and the puts are accepted. -/
theorem run_eq_ok (h : s.Scorable c members) (hsim : sim.Total)
    (hputs : putAll acc (s.putsFrom sim c j.asked (s.pairs c)) = .ok acc') :
    (s.buildMatrix sim c acc).run j = (.ok (toMatrix acc'), s.journalAfter sim c j) :=
  run_buildMatrix_eq_ok_iff.mpr
    ⟨fun item hitem => ⟨(h item hitem).vector, (h item hitem).partners⟩,
      ⟨acc', ⟨fun _ hp => (h.of_mem_pairs hp).1, hsim.answers c _ _, hputs⟩, rfl⟩, rfl⟩

end Scorable

/-- On any accumulator for the same members a run ends. -/
theorem exists_run_buildMatrix {acc : NeighborAccumulator} (hsim : sim.Total)
    (h : s.Scorable c acc.items) :
    ∃ m, (s.buildMatrix sim c acc).run j = (.ok m, s.journalAfter sim c j) := by
  have hmem : ∀ p ∈ s.putsFrom sim c j.asked (s.pairs c),
      p.1 ∈ acc.items.toList ∧ p.2.1 ∈ acc.items.toList := fun _ hp => h.of_mem_putsFrom hp
  obtain ⟨acc', hputs⟩ := NeighborAccumulator.exists_putAll_eq_ok acc hmem
  exact ⟨_, h.run_eq_ok hsim hputs⟩

/-- A run that nothing stops: its matrix holds what the puts of its pairs leave. -/
theorem run_buildMatrix {t : Truncation} {members : ItemSet} (hsim : sim.Total)
    (h : s.Scorable c members) :
    (s.buildMatrix sim c (NeighborAccumulator.create t members)).run j =
      (.ok (NeighborAccumulator.after t members
          (s.putsFrom sim c j.asked (s.pairs c))).toMatrix,
        s.journalAfter sim c j) :=
  h.run_eq_ok hsim (NeighborAccumulator.putAll_create fun _ hp => h.of_mem_putsFrom hp)

end Strategy

end ItemNeighbors
