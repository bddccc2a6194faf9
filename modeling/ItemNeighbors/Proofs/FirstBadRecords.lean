import ItemNeighbors.Proofs.RecordEnds
import ItemNeighbors.Proofs.RejectedRecords

/-!
# The first bad record

Reading a table fails with the first record that is rejected, and then nothing behind the end of
this record matters: neither what else the table holds, nor where it is cut, nor that its source
fails. If the source fails before, then this is reported, with one exception: behind a first portion
that is nothing but a byte order mark, no failure is heard of and nothing is read.

- `RatingTable.FirstRejected`: a record is rejected, and those before it are not.
- `RatingTable.ratings_eq_error_iff`: records are read together unless one is rejected.
- `RatingTable.RejectedAt`: where the first rejected record of a table ends.
- `RatingTable.read_up_to_first_rejected`: what is read from the beginnings of a table, from its
  continuations and from sources that fail.
-/

namespace ItemNeighbors

/-- What is done element by element fails with the first element that fails. -/
theorem mapM_eq_error_iff {α β ε : Type} {f : α → Except ε β} {l : List α} {e : ε} :
    l.mapM f = .error e ↔
      ∃ k a, l[k]? = some a ∧ f a = .error e ∧ ∀ b ∈ l.take k, ∀ e', f b ≠ .error e' := by
  induction l with
  | nil => simp [pure, Except.pure]
  | cons a l ih =>
    rw [List.mapM_cons]
    cases hfirst : f a with
    | error e₀ =>
      show Except.error e₀ = _ ↔ _
      constructor
      · intro h
        cases h
        exact ⟨0, a, rfl, hfirst, by simp⟩
      · rintro ⟨k, b, hb, hbad, hbefore⟩
        cases k with
        | zero =>
          cases hb
          cases hfirst.symm.trans hbad
          rfl
        | succ k => exact absurd hfirst (hbefore a (by simp) e₀)
    | ok c =>
      have hrest : (do
          let cs ← l.mapM f
          pure (c :: cs) : Except ε (List β)) = .error e ↔ l.mapM f = .error e := by
        cases l.mapM f <;> simp [bind, Except.bind, pure, Except.pure]
      show (do
          let cs ← l.mapM f
          pure (c :: cs) : Except ε (List β)) = _ ↔ _
      rw [hrest, ih]
      constructor
      · rintro ⟨k, b, hb, hbad, hbefore⟩
        refine ⟨k + 1, b, hb, hbad, ?_⟩
        rw [List.take_succ_cons]
        exact List.forall_mem_cons.mpr ⟨by simp [hfirst], hbefore⟩
      · rintro ⟨k, b, hb, hbad, hbefore⟩
        cases k with
        | zero =>
          cases hb
          cases hfirst.symm.trans hbad
        | succ k =>
          rw [List.take_succ_cons] at hbefore
          exact ⟨k, b, hb, hbad, (List.forall_mem_cons.mp hbefore).2⟩

namespace RatingTable

open Splitter

variable {records records' : List TableRecord} {k stop : Nat} {e : TableError} {split : Bool}
  {bytes : List UInt8} {source : Source}

/-! ## Rejected records -/

/-- How many fields each record should have: as many as the first one. -/
def width : List TableRecord → Nat
  | [] => 0
  | first :: _ => first.fields.size

/-- The record with this number is rejected, and those before it are not. -/
structure FirstRejected (records : List TableRecord) (k : Nat) (e : TableError) : Prop where
  rejected : ∃ r, records[k]? = some r ∧ r.Rejected (width records) e
  accepted : ∀ r ∈ records.take k, ∀ e', ¬ r.Rejected (width records) e'

theorem FirstRejected.lt_length (h : FirstRejected records k e) : k < records.length := by
  obtain ⟨r, hr, -⟩ := h.rejected
  exact (List.getElem?_eq_some_iff.mp hr).1

/-- **Records are read together unless one is rejected**, and then the first of these counts. -/
theorem ratings_eq_error_iff : ratings records = .error e ↔ ∃ k, FirstRejected records k e := by
  cases records with
  | nil =>
    constructor
    · intro h
      cases h
    · rintro ⟨k, h⟩
      exact absurd h.lt_length (Nat.not_lt_zero k)
  | cons first records =>
    show (first :: records).mapM (TableRecord.ratingOfWidth first.fields.size) = _ ↔ _
    rw [mapM_eq_error_iff]
    simp only [ne_eq, TableRecord.ratingOfWidth_eq_error_iff]
    constructor
    · rintro ⟨k, r, hr, hbad, hbefore⟩
      exact ⟨k, ⟨r, hr, hbad⟩, hbefore⟩
    · rintro ⟨k, ⟨r, hr, hbad⟩, hbefore⟩
      exact ⟨k, r, hr, hbad, hbefore⟩

/-- If some record is rejected, then there is a first one. -/
theorem exists_firstRejected {r : TableRecord} (hr : r ∈ records)
    (h : r.Rejected (width records) e) : ∃ k e, FirstRejected records k e := by
  by_contra hnone
  have haccepted : ∀ (k : Nat) (r : TableRecord), records[k]? = some r →
      ∀ e, ¬ r.Rejected (width records) e := by
    intro k
    induction k using Nat.strongRecOn with
    | ind k ih =>
      intro r hr e hbad
      refine hnone ⟨k, e, ⟨r, hr, hbad⟩, fun r' hr' => ?_⟩
      obtain ⟨j, hj, rfl⟩ := List.mem_take_iff_getElem.mp hr'
      exact ih j (by omega) _ (List.getElem?_eq_getElem _)
  obtain ⟨k, hk⟩ := List.mem_iff_getElem?.mp hr
  exact haccepted k r hk e h

/-- Whether a record is the first rejected one does not depend on the records behind it. -/
theorem firstRejected_iff_of_initial (h : records <+: records') (hk : k < records.length) :
    FirstRejected records k e ↔ FirstRejected records' k e := by
  obtain ⟨later, rfl⟩ := h
  have hwidth : width (records ++ later) = width records := by
    cases records with
    | nil => exact absurd hk (Nat.not_lt_zero k)
    | cons first records => rfl
  have hget : (records ++ later)[k]? = records[k]? := List.getElem?_append_left hk
  have htake : (records ++ later).take k = records.take k :=
    List.take_append_of_le_length (Nat.le_of_lt hk)
  constructor
  · rintro ⟨hrejected, haccepted⟩
    exact ⟨by rwa [hwidth, hget], by rwa [hwidth, htake]⟩
  · rintro ⟨hrejected, haccepted⟩
    exact ⟨by rwa [hwidth, hget] at hrejected, by rwa [hwidth, htake] at haccepted⟩

/-! ## Beginnings and continuations of a table -/

/-- The first rejected record of a table, among those that have ended, ends after so many bytes. -/
def RejectedAt (split : Bool) (bytes : List UInt8) (stop : Nat) (e : TableError) : Prop :=
  ∃ k, FirstRejected (ofTable split bytes).finished.toList k e ∧
    (ofTable split bytes).endOf? k = some stop

/-- If a record that has ended is rejected, then there is a first one, and it has an end. -/
theorem exists_rejectedAt {r : TableRecord} (hr : r ∈ (ofTable split bytes).finished.toList)
    (h : r.Rejected (width (ofTable split bytes).finished.toList) e) :
    ∃ stop e, RejectedAt split bytes stop e := by
  obtain ⟨k, e, hk⟩ := exists_firstRejected hr h
  obtain ⟨stop, hstop⟩ := exists_endOf?_iff.mpr (by simpa using hk.lt_length)
  exact ⟨stop, e, k, hk, hstop⟩

/-- **The first rejected record of a table is that of its beginnings which hold it as a whole**, and
of these only. -/
theorem rejectedAt_append_iff (more : List UInt8) :
    RejectedAt split bytes stop e ↔
      RejectedAt split (bytes ++ more) stop e ∧ stop ≤ bytes.length := by
  have hcontinues := continues_ofTable split bytes more
  have hinitial := hcontinues.finished
  obtain ⟨later, hmarks, -⟩ := hcontinues.marks
  have hend : ∀ k < (ofTable split bytes).finished.size,
      (ofTable split (bytes ++ more)).endOf? k = (ofTable split bytes).endOf? k := by
    intro k hk
    rw [endOf?, hmarks, List.getElem?_append_left (by rw [length_marks]; omega), endOf?]
  constructor
  · rintro ⟨k, hk, hstop⟩
    have hended : k < (ofTable split bytes).finished.size := by simpa using hk.lt_length
    have hstop' := (hend k hended).trans hstop
    exact ⟨⟨k, (firstRejected_iff_of_initial hinitial hk.lt_length).mp hk, hstop'⟩,
      (lt_size_finished_iff hstop').mp hended⟩
  · rintro ⟨⟨k, hk, hstop⟩, hle⟩
    have hended := (lt_size_finished_iff hstop).mpr hle
    exact ⟨k, (firstRejected_iff_of_initial hinitial (by simpa using hended)).mpr hk,
      (hend k hended).symm.trans hstop⟩

theorem RejectedAt.le_length (h : RejectedAt split bytes stop e) : stop ≤ bytes.length :=
  ((rejectedAt_append_iff []).mp h).2

/-- Where a table is cut behind this record does not matter. -/
theorem rejectedAt_take_iff (n : Nat) :
    RejectedAt split (bytes.take n) stop e ↔ RejectedAt split bytes stop e ∧ stop ≤ n := by
  rw [rejectedAt_append_iff (bytes.drop n), List.take_append_drop, List.length_take]
  constructor
  · rintro ⟨h, hle⟩
    exact ⟨h, by omega⟩
  · rintro ⟨h, hle⟩
    have hlength := h.le_length
    exact ⟨h, by omega⟩

/-- It ends behind the bytes in which no record ends. -/
theorem RejectedAt.length_lt {more : List UInt8} (h : RejectedAt split (bytes ++ more) stop e)
    (hnone : (ofTable split bytes).finished = #[]) : bytes.length < stop := by
  refine Nat.lt_of_not_le fun hle => ?_
  obtain ⟨k, hk, -⟩ := (rejectedAt_append_iff more).mpr ⟨h, hle⟩
  have hlength := hk.lt_length
  simp [hnone] at hlength

/-- This record ends with a line end. -/
theorem RejectedAt.exists_recordEnd (h : RejectedAt split bytes stop e) :
    ∃ i b, bytes[i]? = some b ∧ isRecordEnd b = true ∧ stop = i + 1 := by
  obtain ⟨k, -, hstop⟩ := h
  exact exists_of_endOf?_eq_some hstop

/-! ## Readings -/

/-- A rejected record that has ended decides the reading, also if the source fails. -/
theorem read_eq_error_of_rejectedAt (hfirst : source.portions.first ≠ byteOrderMark)
    (h : RejectedAt source.portions.splitsMark source.portions.bytes stop e) :
    read source = .error e := by
  obtain ⟨k, hk, -⟩ := h
  rw [read_of_first_ne hfirst]
  generalize ofTable source.portions.splitsMark source.portions.bytes = table at hk ⊢
  cases source.failure with
  | none =>
    have hrecords : table.finished.toList <+: table.records.toList := by
      unfold Splitter.records
      split
      · rw [Array.toList_push]
        exact List.prefix_append _ _
      · exact List.prefix_refl _
    have herror := ratings_eq_error_iff.mpr
      ⟨k, (firstRejected_iff_of_initial hrecords hk.lt_length).mp hk⟩
    simp [herror, Except.map]
  | some reason =>
    have herror := ratings_eq_error_iff.mpr ⟨k, hk⟩
    simp [herror, bind, Except.bind]

/-- Without such a record the failure of a source is reported. -/
theorem read_eq_sourceFailed (hfirst : source.portions.first ≠ byteOrderMark) {reason : String}
    (hfailure : source.failure = some reason)
    (h : ∀ stop e, ¬ RejectedAt source.portions.splitsMark source.portions.bytes stop e) :
    read source = .error (.sourceFailed reason) := by
  rw [read_of_first_ne hfirst, hfailure]
  show (ratings (ofTable _ _).finished.toList >>= fun _ => throw _) = _
  cases hratings : ratings
      (ofTable source.portions.splitsMark source.portions.bytes).finished.toList with
  | error e =>
    obtain ⟨k, hk⟩ := ratings_eq_error_iff.mp hratings
    obtain ⟨stop, hstop⟩ := exists_endOf?_iff.mpr (by simpa using hk.lt_length)
    exact absurd ⟨k, hk, hstop⟩ (h stop e)
  | ok l => rfl

/-- **Reading a table reports its first rejected record.** The end of this record is a line end. Any
source of a table that begins like this one up to there, be it longer or cut, is read with the same
error, also if the source fails. A source that fails before this end is reported itself, and nothing
is read from one that fails. All this holds in whatever portions the table comes, but a byte order
mark is data if it comes in pieces; and if it comes alone, then nothing seems to have come, and an
empty table is read. -/
theorem read_up_to_first_rejected (bytes : List UInt8) :
    (∀ split, ∀ r ∈ (ofTable split bytes).finished.toList, ∀ e,
      r.Rejected (width (ofTable split bytes).finished.toList) e →
        ∃ stop e, RejectedAt split bytes stop e) ∧
    (∀ split stop e, RejectedAt split bytes stop e →
      ∃ i b, bytes[i]? = some b ∧ isRecordEnd b = true ∧ stop = i + 1) ∧
    (∀ source : Source, source.portions.first ≠ byteOrderMark →
      let rejectedAt := RejectedAt source.portions.splitsMark bytes
      (∀ more, source.portions.bytes = bytes ++ more →
        ∀ stop e, rejectedAt stop e → read source = .error e) ∧
      ∀ n, source.portions.bytes = bytes.take n →
        (∀ stop e, rejectedAt stop e → stop ≤ n → read source = .error e) ∧
        ∀ reason, source.failure = some reason →
          (∀ snapshot, read source ≠ .ok snapshot) ∧
          ((∀ stop e, rejectedAt stop e → n < stop) →
            read source = .error (.sourceFailed reason))) ∧
    ∀ source : Source, source.portions.first = byteOrderMark →
      read source = .ok (PackedSnapshot.ofRatings []) := by
  refine ⟨fun split r hr e => exists_rejectedAt hr, fun split stop e => RejectedAt.exists_recordEnd,
    fun source hfirst => ⟨fun more hbytes stop e h => ?_, fun n hbytes => ?_⟩,
    fun source => read_of_first_eq⟩
  · have hsource : RejectedAt source.portions.splitsMark source.portions.bytes stop e := by
      rw [hbytes]
      exact ((rejectedAt_append_iff more).mp h).1
    exact read_eq_error_of_rejectedAt hfirst hsource
  · have hcut : ∀ stop e, RejectedAt source.portions.splitsMark bytes stop e → stop ≤ n →
        read source = .error e := by
      intro stop e h hn
      have hsource : RejectedAt source.portions.splitsMark source.portions.bytes stop e := by
        rw [hbytes]
        exact (rejectedAt_take_iff n).mpr ⟨h, hn⟩
      exact read_eq_error_of_rejectedAt hfirst hsource
    refine ⟨hcut, fun reason hfailure => ?_⟩
    have hfailed : (∀ stop e, RejectedAt source.portions.splitsMark bytes stop e → n < stop) →
        read source = .error (.sourceFailed reason) := by
      intro hbefore
      refine read_eq_sourceFailed hfirst hfailure fun stop e h => ?_
      rw [hbytes] at h
      obtain ⟨h, hn⟩ := (rejectedAt_take_iff n).mp h
      exact absurd (hbefore stop e h) (Nat.not_lt.mpr hn)
    refine ⟨fun snapshot => ?_, hfailed⟩
    by_cases hbefore : ∀ stop e, RejectedAt source.portions.splitsMark bytes stop e → n < stop
    · simp [hfailed hbefore]
    · simp only [not_forall, Nat.not_lt] at hbefore
      obtain ⟨stop, e, h, hn⟩ := hbefore
      simp [hcut stop e h hn]

/-- A line end inside of quotes ends no record, and a carriage return does: of these bytes the first
four are a bad record, so that a source which gives three of them has failed, and one which gives
four was bad before. -/
theorem read_up_to_first_rejected_of_quoted_line_end :
    let bytes : List UInt8 := [34, 10, 34, 13, 10, 49]
    let e : TableError := .malformedField ⟨0, .start⟩ 0 .invalidDigit
    RejectedAt false bytes 4 e ∧
      read ⟨⟨[[34, 10], [34], [13, 10, 49, 9], [50, 9, 51, 10]], by decide⟩, none⟩ = .error e ∧
      read ⟨⟨[[34], [10, 34, 13]], by decide⟩, some "reader failed"⟩ = .error e ∧
      read ⟨⟨[[34, 10], [34]], by decide⟩, some "reader failed"⟩ =
        .error (.sourceFailed "reader failed") := by
  intro bytes e
  have hrejected : RejectedAt false bytes 4 e := by
    refine ⟨0, ⟨⟨⟨⟨0, .start⟩, #[⟨#[10]⟩]⟩, rfl, ?_⟩, by simp⟩, rfl⟩
    have hbad : TableRecord.Malformed 0 "\n" .invalidDigit := by
      show TableRecord.id "\n".toList = _
      decide
    have htexts : [(⟨#[10]⟩ : ByteArray)] = ["\n"].map String.toUTF8 := by rfl
    exact .field rfl htexts (by decide) (.malformed rfl hbad) (by simp)
  obtain ⟨-, -, hread, -⟩ := read_up_to_first_rejected bytes
  refine ⟨hrejected, (hread _ (by decide)).1 [9, 50, 9, 51, 10] rfl 4 e hrejected,
    ((hread _ (by decide)).2 4 rfl).1 4 e hrejected (Nat.le_refl 4),
    (((hread _ (by decide)).2 3 rfl).2 _ rfl).2 fun stop e' h => ?_⟩
  have hcontinued : RejectedAt false ([34, 10, 34] ++ [13, 10, 49]) stop e' := h
  exact hcontinued.length_lt rfl

/-- A table of one rating begins with a byte order mark, and its source fails behind the mark. No
record is rejected before, and yet the failure is not reported: the table is read as an empty
one. -/
theorem failure_unheard_behind_mark :
    let bytes := byteOrderMark ++ [49, 9, 50, 9, 51, 10]
    let source : Source := ⟨⟨[byteOrderMark], by decide⟩, some "reader failed"⟩
    source.portions.bytes = bytes.take 3 ∧
      (∀ stop e, RejectedAt source.portions.splitsMark bytes stop e → 3 < stop) ∧
      read source = .ok (PackedSnapshot.ofRatings []) := by
  intro bytes source
  refine ⟨rfl, fun stop e h => ?_, rfl⟩
  have hcontinued : RejectedAt false (byteOrderMark ++ [49, 9, 50, 9, 51, 10]) stop e := h
  exact hcontinued.length_lt rfl

end RatingTable

end ItemNeighbors
