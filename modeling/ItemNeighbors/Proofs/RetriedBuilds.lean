import ItemNeighbors.Proofs.BuildHistories
import ItemNeighbors.Proofs.FinishedRuns

/-!
# Builds after failed builds

A failed build leaves nothing behind but the number of calls to the similarity, which a function
does not care about. So what a build comes to depends on the last part of each kind only.

- `Part.lasts`: the parts that no later part replaces.
- `Builder.foldl_give_lasts`: the other parts have no effect.
- `Builder.unasked_run_of_failed`: what a history of failed builds makes of a builder.
- `Builder.build_congr`: builders that differ in the number of calls build the same.
- `Builder.BuiltFrom`: the model and the look-ups fit the parts.
- `Builder.build_after_failed`: a build after a history of failed builds.
-/

namespace ItemNeighbors

/-- What a part is used for. -/
inductive PartKind where
  | similarity
  | factory
  | snapshot
  | baseline
  | normalizer
deriving DecidableEq

namespace Part

/-- What a part is used for. -/
def kind : Part → PartKind
  | similarity _ => .similarity
  | factory _ => .factory
  | snapshot _ => .snapshot
  | baseline _ => .baseline
  | normalizer _ => .normalizer

/-- The last part of each kind, in order. -/
def lasts : List Part → List Part
  | [] => []
  | p :: parts => if parts.any (·.kind = p.kind) then lasts parts else p :: lasts parts

end Part

/-- The parts that are given in a history. -/
def Action.parts (history : List Action) : List Part :=
  history.filterMap fun
    | .give part => some part
    | _ => none

namespace Builder

variable {b b' : Builder} {p q : Part} {parts : List Part} {history : List Action}
  {sim : Similarity} {factory : AccumulatorFactory} {snapshot : Snapshot} {m : Model}

/-- A builder that is given some parts and nothing else. -/
def ofParts (parts : List Part) : Builder :=
  parts.foldl give new

/-! ## Replaced parts -/

/-- A part replaces one of the same kind. -/
theorem give_give_of_kind_eq (b : Builder) (h : q.kind = p.kind) :
    (b.give p).give q = b.give q := by
  cases p <;> cases q <;> first | rfl | cases h

/-- Parts of different kinds do not meet. -/
theorem give_comm (b : Builder) (h : q.kind ≠ p.kind) :
    (b.give p).give q = (b.give q).give p := by
  cases p <;> cases q <;> first | rfl | exact absurd rfl h

theorem foldl_give_of_replaced (b : Builder) (h : ∃ q ∈ parts, q.kind = p.kind) :
    parts.foldl give (b.give p) = parts.foldl give b := by
  induction parts generalizing b with
  | nil => simp at h
  | cons q parts ih =>
    rw [List.foldl_cons, List.foldl_cons]
    by_cases hq : q.kind = p.kind
    · rw [give_give_of_kind_eq b hq]
    · have hrest : ∃ q ∈ parts, q.kind = p.kind := by simpa [hq] using h
      rw [give_comm b hq, ih _ hrest]

/-- Only the last part of each kind counts. -/
theorem foldl_give_lasts (b : Builder) (parts : List Part) :
    (Part.lasts parts).foldl give b = parts.foldl give b := by
  induction parts generalizing b with
  | nil => rfl
  | cons p parts ih =>
    rw [Part.lasts]
    split
    · rename_i hreplaced
      rw [ih, List.foldl_cons, foldl_give_of_replaced b (by simpa using hreplaced)]
    · exact ih (b.give p)

/-! ## Failed builds -/

/-- The builder without the count of the calls to its similarity. -/
def unasked (b : Builder) : Builder := { b with asked := 0 }

theorem eq_of_unasked_eq (h : b.unasked = b'.unasked) : ∃ asked, b' = { b with asked } :=
  ⟨b'.asked, by cases b; cases b'; cases h; rfl⟩

theorem Configured.of_unasked_eq (h : b.Configured sim factory snapshot)
    (heq : b.unasked = b'.unasked) : b'.Configured sim factory snapshot := by
  obtain ⟨asked, rfl⟩ := eq_of_unasked_eq heq
  exact ⟨h.phase, h.similarity, h.factory, h.snapshot⟩

theorem unasked_give (h : b.unasked = b'.unasked) (p : Part) :
    (b.give p).unasked = (b'.give p).unasked := by
  have hcomm : ∀ b : Builder, (b.give p).unasked = (b.unasked.give p).unasked := by
    intro b
    cases p <;> rfl
  rw [hcomm b, h, ← hcomm b']

theorem unasked_foldl_give (h : b.unasked = b'.unasked) (parts : List Part) :
    (parts.foldl give b).unasked = (parts.foldl give b').unasked := by
  induction parts generalizing b b' with
  | nil => exact h
  | cons p parts ih => exact ih (unasked_give h p)

/-- After failed builds a builder is as if it had only been given its parts. -/
theorem unasked_run_of_failed (hsim : ∀ sim, b.similarity = some sim → sim.IsPure)
    (hpure : ∀ sim, .give (.similarity sim) ∈ history → sim.IsPure)
    (hfailed : ∀ r ∈ b.results history, ∃ e, r = .error e) :
    (b.run history).unasked = ((Action.parts history).foldl give b).unasked := by
  induction history generalizing b with
  | nil => rfl
  | cons action history ih =>
    have hpure' : ∀ sim, .give (.similarity sim) ∈ history → sim.IsPure :=
      fun sim hmem => hpure sim (List.mem_cons_of_mem _ hmem)
    have hfailed' : ∀ r ∈ (b.step action).results history, ∃ e, r = .error e :=
      fun r hr => hfailed r (List.mem_append_right _ hr)
    cases action with
    | ask query => exact ih hsim hpure' hfailed'
    | give part =>
      refine ih ?_ hpure' hfailed'
      intro sim hgiven
      have hrun : (b.run [.give part]).similarity = some sim := hgiven
      rcases mem_of_similarity_run hrun with hold | hmem
      · exact hsim sim hold
      · exact hpure sim (List.mem_cons.mpr (.inl (List.mem_singleton.mp hmem)))
    | build =>
      obtain ⟨e, he⟩ := hfailed _ (List.mem_append_left _ (List.mem_singleton_self _))
      show (b.build.1.run history).unasked = ((Action.parts history).foldl give b).unasked
      replace hfailed' : ∀ r ∈ b.build.1.results history, ∃ e, r = .error e := hfailed'
      generalize b.build = outcome, b.buildStep_build = hstep at *
      cases hstep with
      | refused error asked j =>
        -- nothing but the count of the calls has changed
        have hrest := ih (b := { b with asked }) hsim hpure' hfailed'
        have hasked : ({ b with asked } : Builder).unasked = b.unasked := rfl
        exact hrest.trans (unasked_foldl_give hasked _)
      | cutShort hconfigured htotal => exact absurd (hsim _ hconfigured.similarity).total htotal
      | finished hconfigured hrun => cases he

/-- A builder with all parts builds the same, however often its similarity has been asked. -/
theorem Configured.build_asked (h : b.Configured sim factory snapshot) (hsim : sim.IsPure)
    (asked : Nat) :
    b.build.2.result = ({ b with asked } : Builder).build.2.result ∧
      b.build.1.unasked = ({ b with asked } : Builder).build.1.unasked := by
  have h' : ({ b with asked } : Builder).Configured sim factory snapshot := h.of_unasked_eq rfl
  have hresult := hsim.stepwise.assemble factory snapshot (.start b.asked) (.start asked)
  rcases hrun : (assemble sim factory snapshot).run (.start b.asked) with ⟨result, j⟩
  rcases hrun' : (assemble sim factory snapshot).run (.start asked) with ⟨result', j'⟩
  obtain rfl : result = result' := by rwa [hrun, hrun'] at hresult
  match result with
  | .ok (c, m) =>
    rw [build_of_run_eq_ok h hrun, build_of_run_eq_ok h' hrun']
    exact ⟨rfl, rfl⟩
  | .error (.refused error) =>
    rw [build_of_run_eq_refused h hrun, build_of_run_eq_refused h' hrun']
    exact ⟨rfl, rfl⟩
  | .error .similarityFailed =>
    rw [build_of_run_eq_failed h hrun, build_of_run_eq_failed h' hrun']
    exact ⟨rfl, rfl⟩

/-- Builders that differ in the number of calls build the same. -/
theorem build_congr (h : b.unasked = b'.unasked)
    (hpure : ∀ sim, b.similarity = some sim → sim.IsPure) :
    b.build.2.result = b'.build.2.result ∧ b.build.1.unasked = b'.build.1.unasked := by
  obtain ⟨asked, rfl⟩ := eq_of_unasked_eq h
  rcases b.configured_or_refuses with ⟨sim, factory, snapshot, hconfigured⟩ | ⟨error, hrefuses⟩
  · exact hconfigured.build_asked (hpure sim hconfigured.similarity) asked
  · rw [hrefuses asked, show b.build = b.refuse error from hrefuses b.asked]
    exact ⟨rfl, rfl⟩

/-! ## Successful builds -/

/-- The model and the look-ups of the builder fit the parts of the build. -/
structure BuiltFrom (sim : Similarity) (factory : AccumulatorFactory) (snapshot : Snapshot)
    (declared : ItemSet) (b : Builder) (m : Model) : Prop where
  /-- The universe has the declared items, each once and in ascending order. -/
  ascending : declared.toList.Pairwise (· < ·)
  members : ∀ item, item ∈ declared.toList ↔ item ∈ snapshot.itemIds
  items : b.items = .ok declared
  modelItems : m.items = declared
  /-- The matrix has a row for each item that the factory has made its accumulator for. -/
  matrixItems : m.matrix.items = (factory declared).items
  /-- A factory that truncates makes it for the universe. -/
  matrixItems_of_truncation : ∀ t : Truncation, factory = t.factory → m.matrix.items = declared
  itemCount : b.itemCount = .ok declared.toList.length
  isSome_itemVector : ∀ item, (∃ v, b.itemVector item = .ok (some v)) ↔ item ∈ snapshot.itemIds
  /-- The vectors, the sets and the matrix are those of the transposition. -/
  transposed : ∃ tr, snapshot.transpose declared sim.isSparse = .ok tr ∧
    (∀ item, b.itemVector item = .ok (tr.itemRatings[item]?.map RatingAccumulator.freeze)) ∧
    (sim.isSparse = true → ∃ sets, tr.userItems = some sets ∧
      ∀ user, b.userItemSet user = .ok sets[user]?) ∧
    ∀ j, (((Strategy.select sim.isSparse sim.isSymmetric).buildMatrix sim
      (.freeze declared tr) (factory declared)).run j).1 = .ok m.matrix

/-- A build that returns a model has built it from the parts of the builder. -/
theorem exists_builtFrom (h : b.build.2.result = .ok m)
    (hpure : ∀ sim, b.similarity = some sim → sim.IsPure) :
    ∃ sim factory snapshot declared, b.Configured sim factory snapshot ∧
      BuiltFrom sim factory snapshot declared b.build.1 m := by
  obtain ⟨sim, factory, snapshot, c, matrix, j, hconfigured, hrun, hstate, rfl⟩ :=
    exists_of_build_eq_ok h
  obtain ⟨tr, htr, rfl, hm⟩ := exists_of_run_assemble_eq_ok hrun
  have hcontext : b.build.1.context = .ok (.freeze (.ofList snapshot.itemIds) tr) := by
    rw [context, hstate]
  have hfrozen := BuildContext.frozen_of_transpose htr
  have hvector : ∀ item, b.build.1.itemVector item =
      .ok (tr.itemRatings[item]?.map RatingAccumulator.freeze) := by
    intro item
    rw [itemVector, hcontext, ← BuildContext.itemVector?_freeze]
    rfl
  refine ⟨sim, factory, snapshot, .ofList snapshot.itemIds, hconfigured, ?_⟩
  exact {
    ascending := ItemSet.toList_pairwise _
    members := fun item => ItemSet.mem_toList_ofList
    items := by rw [items, hcontext]; rfl
    modelItems := rfl
    matrixItems := Strategy.items_of_run hm
    matrixItems_of_truncation := by
      rintro t rfl
      exact Strategy.items_of_run hm
    itemCount := by rw [itemCount, hcontext]; rfl
    isSome_itemVector := by
      intro item
      have hmember := hfrozen.isSome_itemVector? item
      rw [BuildContext.itemVector?_freeze, Option.isSome_iff_exists] at hmember
      rw [hvector, ← ItemSet.mem_toList_ofList]
      simp only [Except.ok.injEq]
      exact hmember
    transposed := by
      refine ⟨tr, htr, hvector, ?_, ?_⟩
      · intro hsparse
        have hcollected := (Snapshot.collected_of_transpose htr).collected
        obtain ⟨sets, hsets⟩ := Option.isSome_iff_exists.mp (hcollected.trans hsparse)
        refine ⟨sets, hsets, fun user => ?_⟩
        rw [userItemSet, hcontext, ← BuildContext.userItemSet_freeze_of_some hsets]
        rfl
      · intro j'
        have hpure := hpure sim hconfigured.similarity
        rw [hpure.stepwise.buildMatrix _ _ _ j' (announced sim (.start b.asked)), hm] }

/-- **A build after failed builds comes to what the last part of each kind comes to** on a new
builder, and if it returns a model, then the model and the builder fit these parts. -/
theorem build_after_failed (hpure : ∀ sim, .give (.similarity sim) ∈ history → sim.IsPure)
    (hfailed : ∀ r ∈ new.results history, ∃ e, r = .error e) :
    let b := new.run history
    let fresh := ofParts (Part.lasts (Action.parts history))
    b.build.2.result = fresh.build.2.result ∧
      (∀ query, b.build.1.ask query = fresh.build.1.ask query) ∧
        ∀ m, b.build.2.result = .ok m → ∃ sim factory snapshot declared,
          fresh.Configured sim factory snapshot ∧
            BuiltFrom sim factory snapshot declared b.build.1 m := by
  intro b fresh
  have heq : b.unasked = fresh.unasked := by
    rw [unasked_run_of_failed (fun sim hsim => by cases hsim) hpure hfailed]
    simp only [fresh, ofParts, foldl_give_lasts]
  have hsim : ∀ sim, b.similarity = some sim → sim.IsPure := by
    intro sim hgiven
    rcases mem_of_similarity_run hgiven with hnew | hmem
    · cases hnew
    · exact hpure sim hmem
  obtain ⟨hresult, hafter⟩ := build_congr heq hsim
  refine ⟨hresult, fun query => ask_of_state_eq (congrArg Builder.state hafter) query,
    fun m hm => ?_⟩
  obtain ⟨sim, factory, snapshot, declared, hconfigured, hfrom⟩ := exists_builtFrom hm hsim
  exact ⟨sim, factory, snapshot, declared, hconfigured.of_unasked_eq heq, hfrom⟩

/-- A build without a snapshot and one with an undeclared item do not matter to the third one. -/
theorem build_after_two_failures :
    let stray : Snapshot := { userIds := [5], itemIds := [1], ratingsOf := fun _ => [⟨5, 9, 3.0⟩] }
    let snapshot : Snapshot :=
      { userIds := [5], itemIds := [2, 1, 2], ratingsOf := fun _ => [⟨5, 1, 4.0⟩, ⟨5, 2, 3.0⟩] }
    let history : List Action := [.give (.similarity (.cosine 0.0)),
      .give (.factory (Truncation.factory ⟨1, 0.0⟩)), .build, .give (.snapshot stray), .build,
      .ask .items, .give (.snapshot snapshot)]
    ∃ m declared, (new.run history).build.2.result = .ok m ∧ declared.toList = [1, 2] ∧
      m.matrix.items = declared ∧
        BuiltFrom (.cosine 0.0) (Truncation.factory ⟨1, 0.0⟩) snapshot declared
          (new.run history).build.1 m := by
  intro stray snapshot history
  have hstray : stray.stray? (.ofList stray.itemIds) = some (5, 9) := by
    rw [stray?_ofList]
    decide
  have hknown : snapshot.stray? (.ofList snapshot.itemIds) = none := by
    rw [stray?_ofList]
    decide
  have hpure : ∀ sim, .give (.similarity sim) ∈ history → sim.IsPure := by
    intro sim hsim
    obtain rfl : sim = .cosine 0.0 := by simpa [history] using hsim
    exact Similarity.isPure_ofFunction _ _ _
  have hfailed : ∀ r ∈ new.results history, ∃ e, r = .error e := by
    intro r hr
    rcases List.mem_cons.mp hr with rfl | hr
    · exact ⟨_, rfl⟩
    · have hresult := build_result_of_stray
        (configured_new (.cosine 0.0) (Truncation.factory ⟨1, 0.0⟩) stray) hstray
      exact ⟨_, (List.mem_singleton.mp hr).trans hresult⟩
  obtain ⟨hsame, -, hfits⟩ := build_after_failed hpure hfailed
  have hfresh := configured_new (.cosine 0.0) (Truncation.factory ⟨1, 0.0⟩) snapshot
  obtain ⟨m, hm⟩ := exists_build_eq_ok hfresh (Similarity.total_ofFunction _ _ _) hknown
  have hok : (new.run history).build.2.result = .ok m := hsame.trans hm
  obtain ⟨sim, factory, snapshot', declared, hconfigured, hfrom⟩ := hfits m hok
  obtain rfl := Option.some.inj (hfresh.similarity.symm.trans hconfigured.similarity)
  obtain rfl := Option.some.inj (hfresh.factory.symm.trans hconfigured.factory)
  obtain rfl := Option.some.inj (hfresh.snapshot.symm.trans hconfigured.snapshot)
  refine ⟨m, declared, hok, ItemSet.list_ext hfrom.ascending (by decide) fun item => ?_,
    hfrom.matrixItems_of_truncation _ rfl, hfrom⟩
  rw [hfrom.members]
  simp only [snapshot, List.mem_cons, List.not_mem_nil, or_false]
  tauto

end Builder

end ItemNeighbors
