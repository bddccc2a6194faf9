import ItemNeighbors.Proofs.Portions

/-!
# Where records end

A splitter knows nothing of the bytes to come. So the records that have ended after some bytes are
the first ones of every longer table, and what a longer table has besides ends behind these bytes.

- `Splitter.marks`: the places between the finished records of a table.
- `Splitter.endOf?`: how many bytes of a table come up to the end of a record.
- `Splitter.Continues`: what some bytes add to the finished records.
- `Splitter.continues_ofTable`: a longer table continues a shorter one.
- `Splitter.lt_size_finished_iff`: the records that have ended within some bytes.
-/

namespace ItemNeighbors

/-- Only a line end ends a record. -/
theorem OpenRecord.isRecordEnd_of_step_eq_done {r : OpenRecord} {b : UInt8}
    {fields : Array ByteArray} (h : r.step b = .done fields) : isRecordEnd b = true := by
  have hplain : ∀ {fields}, r.stepPlain b = .done fields → isRecordEnd b = true := by
    intro fields h
    unfold stepPlain at h
    split at h
    · cases h
    · split at h
      · assumption
      · cases h
  unfold step at h
  split at h <;> (try split at h) <;> first | exact hplain h | cases h

namespace Splitter

variable {s s' s'' : Splitter} {b : UInt8} {bytes bytes' : List UInt8}

/-! ## Marks -/

/-- The numbers of bytes before the finished records and behind the last one. -/
def marks (s : Splitter) : List Nat :=
  s.finished.toList.map (·.position.place.byte) ++ [s.origin.byte]

/-- How many bytes come up to the end of a finished record, its line end included. -/
def endOf? (s : Splitter) (k : Nat) : Option Nat := s.marks[k + 1]?

theorem length_marks (s : Splitter) : s.marks.length = s.finished.size + 1 := by
  simp [marks]

/-- The finished records have ends and no others. -/
theorem exists_endOf?_iff {k : Nat} : (∃ stop, s.endOf? k = some stop) ↔ k < s.finished.size := by
  rw [← Option.isSome_iff_exists, endOf?, isSome_getElem?, length_marks]
  omega

/-! ## One byte more -/

theorem place_feed (s : Splitter) (b : UInt8) : (s.feed b).place = s.place.advance b := by
  have hfollow : ∀ step, (s.follow (s.place.advance b) step).place = s.place.advance b := by
    rintro (record | fields)
    · rfl
    · rfl
  unfold feed
  split
  · split
    · rfl
    · exact hfollow _
  · exact hfollow _

/-- A byte that ends a record finishes it here, and every other one leaves the finished records as
they are. -/
theorem feed_cases (s : Splitter) (b : UInt8) :
    ((s.feed b).finished = s.finished ∧ (s.feed b).origin = s.origin) ∨
      isRecordEnd b = true ∧
        (∃ fields, (s.feed b).finished = s.finished.push ⟨s.position, fields⟩) ∧
        (s.feed b).origin = s.place.advance b := by
  have hfollow : ∀ r : OpenRecord,
      let after := s.follow (s.place.advance b) (r.step b)
      (after.finished = s.finished ∧ after.origin = s.origin) ∨
        isRecordEnd b = true ∧ (∃ fields, after.finished = s.finished.push ⟨s.position, fields⟩) ∧
          after.origin = s.place.advance b := by
    intro r
    cases hstep : r.step b with
    | more record => exact .inl ⟨rfl, rfl⟩
    | done fields =>
      exact .inr ⟨OpenRecord.isRecordEnd_of_step_eq_done hstep, ⟨fields, rfl⟩, rfl⟩
  unfold feed
  split
  · split
    · exact .inl ⟨rfl, rfl⟩
    · exact hfollow _
  · exact hfollow _

/-! ## Many bytes more -/

/-- Some bytes lead from one splitter to another: the finished records and their ends stay, and each
further record ends with a line end among these bytes. -/
structure Continues (s : Splitter) (bytes : List UInt8) (s' : Splitter) : Prop where
  finished : s.finished.toList <+: s'.finished.toList
  marks : ∃ later, s'.marks = s.marks ++ later ∧ ∀ stop ∈ later, ∃ i b,
    bytes[i]? = some b ∧ isRecordEnd b = true ∧ stop = s.place.byte + i + 1
  place : s'.place.byte = s.place.byte + bytes.length

theorem Continues.refl (s : Splitter) : s.Continues [] s :=
  ⟨List.prefix_refl _, ⟨[], by simp⟩, rfl⟩

theorem Continues.trans (h : s.Continues bytes s') (h' : s'.Continues bytes' s'') :
    s.Continues (bytes ++ bytes') s'' := by
  obtain ⟨hfinished, ⟨later, hmarks, hlater⟩, hplace⟩ := h
  obtain ⟨hfinished', ⟨later', hmarks', hlater'⟩, hplace'⟩ := h'
  refine ⟨hfinished.trans hfinished', ⟨later ++ later', ?_, ?_⟩, ?_⟩
  · rw [hmarks', hmarks, List.append_assoc]
  · intro stop hstop
    rcases List.mem_append.mp hstop with hstop | hstop
    · obtain ⟨i, b, hb, hend, rfl⟩ := hlater stop hstop
      have hi : i < bytes.length := (List.getElem?_eq_some_iff.mp hb).1
      exact ⟨i, b, by rw [List.getElem?_append_left hi, hb], hend, rfl⟩
    · obtain ⟨i, b, hb, hend, rfl⟩ := hlater' stop hstop
      refine ⟨bytes.length + i, b, ?_, hend, by omega⟩
      rw [List.getElem?_append_right (by omega), Nat.add_sub_cancel_left, hb]
  · rw [hplace', hplace, List.length_append, Nat.add_assoc]

theorem continues_feed (s : Splitter) (b : UInt8) : s.Continues [b] (s.feed b) := by
  have hplace : (s.feed b).place.byte = s.place.byte + [b].length := by
    rw [place_feed]
    rfl
  rcases feed_cases s b with ⟨hfinished, horigin⟩ | ⟨hend, ⟨fields, hfinished⟩, horigin⟩
  · refine ⟨hfinished ▸ List.prefix_refl _, ⟨[], ?_, by simp⟩, hplace⟩
    rw [Splitter.marks, hfinished, horigin, List.append_nil]
    rfl
  · refine ⟨?_, ⟨[s.place.byte + 1], ?_, ?_⟩, hplace⟩
    · rw [hfinished, Array.toList_push]
      exact List.prefix_append _ _
    · -- the new record begins at the origin, which was the last mark
      simp [Splitter.marks, hfinished, horigin, position, Place.advance]
    · intro stop hstop
      exact ⟨0, b, rfl, hend, by simpa using hstop⟩

theorem continues_foldl (s : Splitter) (bytes : List UInt8) :
    s.Continues bytes (bytes.foldl feed s) := by
  induction bytes generalizing s with
  | nil => exact .refl s
  | cons b bytes ih => exact (continues_feed s b).trans (ih (s.feed b))

/-! ## Longer tables -/

/-- Before the end of a byte order mark no record has begun, so it does not matter that its bytes
were taken in as data. -/
theorem continues_start {rest : List UInt8} (h : bytes ++ rest = byteOrderMark) (hne : rest ≠ []) :
    (ofBytes bytes).Continues rest (start 3) := by
  rcases bytes with _ | ⟨b₁, _ | ⟨b₂, _ | ⟨b₃, bytes⟩⟩⟩
  · cases h
    exact ⟨List.prefix_refl _, ⟨[], rfl, by simp⟩, rfl⟩
  · cases h
    exact ⟨List.prefix_refl _, ⟨[], rfl, by simp⟩, rfl⟩
  · cases h
    exact ⟨List.prefix_refl _, ⟨[], rfl, by simp⟩, rfl⟩
  · have hnil : bytes ++ rest = [] := by
      simp only [byteOrderMark, List.cons_append, List.cons.injEq] at h
      exact h.2.2.2
    exact absurd (List.append_eq_nil_iff.mp hnil).2 hne

theorem continues_ofBytes (bytes more : List UInt8) :
    (ofBytes bytes).Continues more (ofBytes (bytes ++ more)) := by
  by_cases hmark : byteOrderMark <+: bytes
  · obtain ⟨data, rfl⟩ := hmark
    show (data.foldl feed (start 3)).Continues more ((data ++ more).foldl feed (start 3))
    rw [List.foldl_append]
    exact continues_foldl _ _
  · by_cases hlong : byteOrderMark <+: bytes ++ more
    · obtain ⟨data, hdata⟩ := hlong
      obtain ⟨rest, hrest, rfl⟩ | ⟨rest, rfl, rfl⟩ := List.append_eq_append_iff.mp hdata.symm
      · have hne : rest ≠ [] := by
          rintro rfl
          rw [List.append_nil] at hrest
          exact hmark (hrest ▸ List.prefix_refl _)
        rw [← hdata]
        exact (continues_start hrest.symm hne).trans (continues_foldl (start 3) data)
      · exact absurd (List.prefix_append _ _) hmark
    · rw [ofBytes_of_no_mark hmark, ofBytes_of_no_mark hlong, List.foldl_append]
      exact continues_foldl _ _

/-- **A longer table continues a shorter one**, also if the shorter one is a part of a byte order
mark. -/
theorem continues_ofTable (split : Bool) (bytes more : List UInt8) :
    (ofTable split bytes).Continues more (ofTable split (bytes ++ more)) := by
  cases split with
  | false => exact continues_ofBytes bytes more
  | true =>
    show (bytes.foldl feed (start 0)).Continues more ((bytes ++ more).foldl feed (start 0))
    rw [List.foldl_append]
    exact continues_foldl _ _

variable {split : Bool} {k stop : Nat}

/-- Every table continues the one before its first byte. -/
theorem continues_ofTable_nil (split : Bool) (bytes : List UInt8) :
    (start 0).Continues bytes (ofTable split bytes) := by
  have hstart : ofTable split [] = start 0 := by
    cases split with
    | false => rfl
    | true => rfl
  have hcontinues := continues_ofTable split [] bytes
  rwa [hstart, List.nil_append] at hcontinues

theorem place_ofTable (split : Bool) (bytes : List UInt8) :
    (ofTable split bytes).place.byte = bytes.length :=
  (continues_ofTable_nil split bytes).place.trans (Nat.zero_add _)

/-- The end of a record is behind a line end. -/
theorem exists_of_endOf?_eq_some (h : (ofTable split bytes).endOf? k = some stop) :
    ∃ i b, bytes[i]? = some b ∧ isRecordEnd b = true ∧ stop = i + 1 := by
  obtain ⟨later, hmarks, hlater⟩ := (continues_ofTable_nil split bytes).marks
  have hstop : later[k]? = some stop := by
    rw [endOf?, hmarks] at h
    exact h
  obtain ⟨i, b, hb, hend, rfl⟩ := hlater stop (List.mem_of_getElem? hstop)
  exact ⟨i, b, hb, hend, congrArg (· + 1) (Nat.zero_add i)⟩

/-- **The records that have ended within some bytes of a table** are those whose ends lie there. -/
theorem lt_size_finished_iff {more : List UInt8}
    (h : (ofTable split (bytes ++ more)).endOf? k = some stop) :
    k < (ofTable split bytes).finished.size ↔ stop ≤ bytes.length := by
  obtain ⟨later, hmarks, hlater⟩ := (continues_ofTable split bytes more).marks
  have hlength := length_marks (ofTable split bytes)
  rw [endOf?, hmarks] at h
  constructor
  · intro hk
    rw [List.getElem?_append_left (by omega)] at h
    obtain ⟨i, b, hb, -, rfl⟩ := exists_of_endOf?_eq_some h
    exact (List.getElem?_eq_some_iff.mp hb).1
  · intro hstop
    refine Nat.lt_of_not_le fun hk => ?_
    rw [List.getElem?_append_right (by omega)] at h
    obtain ⟨i, b, -, -, rfl⟩ := hlater stop (List.mem_of_getElem? h)
    rw [place_ofTable] at hstop
    omega

end Splitter

end ItemNeighbors
