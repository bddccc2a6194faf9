import Mathlib.Data.List.Forall2
import ItemNeighbors.RatingTable

/-!
# What tables contain

A reader of ratings looks at the fields of the records and, unless there is something to complain
about, not at where they stand. So a splitter is described by the fields of the records that it has
finished and by the record that it is in.

- `OpenRecord.Reads`: some bytes lead from one state of a record to another.
- `Splitter.Holds`: what a splitter has finished, and what it is in.
- `Splitter.Holds.foldl_reads`, `Splitter.Holds.feed_end`, `Splitter.Holds.foldl_blank`: what the
  bytes of a record, its end and blank lines do.
- `RatingTable.ratings_eq_ok`: records that are read one by one are read together.
-/

namespace ItemNeighbors

/-! ## Records -/

namespace OpenRecord

variable {r r' r'' : OpenRecord} {b : UInt8} {bytes bytes' : List UInt8}

/-- The record goes on with all of the bytes, and they lead to another state of it. -/
inductive Reads : OpenRecord → List UInt8 → OpenRecord → Prop where
  | nil (r : OpenRecord) : Reads r [] r
  | cons {r r' r'' : OpenRecord} {b : UInt8} {bytes : List UInt8} (hstep : r.step b = .more r')
      (hrest : Reads r' bytes r'') : Reads r (b :: bytes) r''

theorem Reads.append (h : r.Reads bytes r') (h' : r'.Reads bytes' r'') :
    r.Reads (bytes ++ bytes') r'' := by
  induction h with
  | nil => exact h'
  | cons hstep _ ih => exact .cons hstep (ih h')

theorem reads_singleton (h : r.step b = .more r') : r.Reads [b] r' :=
  .cons h (.nil r')

/-- Where no quote is open, a byte that is no quote is taken in as plain. -/
theorem step_eq_stepPlain (hstate : r.state ≠ .quoted) (hb : b ≠ 34) :
    r.step b = r.stepPlain b := by
  unfold step
  cases hr : r.state with
  | start => exact if_neg hb
  | plain => rfl
  | quoted => exact absurd hr hstate
  | quoteSeen => exact if_neg hb

/-- Where no quote is open, a tab ends the field. -/
theorem step_tab (hstate : r.state ≠ .quoted) :
    r.step 9 = .more ⟨r.fields.push r.field, .empty, .start⟩ :=
  step_eq_stepPlain hstate (by decide)

/-- Where no quote is open, a line end ends the record. -/
theorem step_end (hstate : r.state ≠ .quoted) (hend : isRecordEnd b = true) :
    r.step b = .done r.close := by
  have hb : b = 10 ∨ b = 13 := by simpa [isRecordEnd] using hend
  obtain rfl | rfl := hb
  · exact step_eq_stepPlain hstate (by decide)
  · exact step_eq_stepPlain hstate (by decide)

/-- No record begins with a line end. -/
theorem isRecordEnd_of_step_start (h : start.step b = .more r) : isRecordEnd b = false := by
  cases hend : isRecordEnd b with
  | false => rfl
  | true =>
    rw [step_end (by decide) hend] at h
    cases h

end OpenRecord

/-! ## Tables -/

namespace Splitter

variable {s : Splitter} {finished : List (Array ByteArray)} {r r' : OpenRecord} {b : UInt8}
  {bytes : List UInt8}

/-- The fields of the finished records of a splitter, and the record it is in. -/
structure Holds (s : Splitter) (finished : List (Array ByteArray))
    (current : Option OpenRecord) : Prop where
  finished : s.finished.toList.map (·.fields) = finished
  current : s.current = current

theorem holds_start (skipped : Nat) : (start skipped).Holds [] none := ⟨rfl, rfl⟩

/-- Inside a record the splitter follows the record. -/
theorem Holds.feed_more (h : s.Holds finished (some r)) (hstep : r.step b = .more r') :
    (s.feed b).Holds finished (some r') := by
  unfold feed
  rw [h.current]
  show (s.follow _ (r.step b)).Holds _ _
  rw [hstep]
  exact ⟨h.finished, rfl⟩

/-- Bytes that a record goes on with. -/
theorem Holds.foldl_reads (h : s.Holds finished (some r)) (hreads : r.Reads bytes r') :
    (bytes.foldl feed s).Holds finished (some r') := by
  induction hreads generalizing s with
  | nil => exact h
  | cons hstep _ ih => exact ih (h.feed_more hstep)

/-- The bytes that a record begins with. -/
theorem Holds.foldl_begin (h : s.Holds finished none) (hreads : OpenRecord.start.Reads bytes r)
    (hne : bytes ≠ []) : (bytes.foldl feed s).Holds finished (some r) := by
  cases hreads with
  | nil => exact absurd rfl hne
  | @cons _ r' _ b bytes hstep hrest =>
    have hfirst : (s.feed b).Holds finished (some r') := by
      unfold feed
      rw [h.current]
      show (if isRecordEnd b then _ else s.follow _ (OpenRecord.start.step b)).Holds _ _
      rw [OpenRecord.isRecordEnd_of_step_start hstep, hstep]
      exact ⟨h.finished, rfl⟩
    exact hfirst.foldl_reads hrest

/-- The end of a record. -/
theorem Holds.feed_end (h : s.Holds finished (some r)) (hstate : r.state ≠ .quoted)
    (hend : isRecordEnd b = true) : (s.feed b).Holds (finished ++ [r.close]) none := by
  unfold feed
  rw [h.current]
  show (s.follow _ (r.step b)).Holds _ _
  rw [OpenRecord.step_end hstate hend]
  refine ⟨?_, rfl⟩
  show (s.finished.push _).toList.map _ = _
  rw [Array.toList_push, List.map_append, h.finished]
  rfl

/-- Line ends between records count for nothing. -/
theorem Holds.foldl_blank (h : s.Holds finished none)
    (hends : ∀ b ∈ bytes, isRecordEnd b = true) :
    (bytes.foldl feed s).Holds finished none := by
  induction bytes generalizing s with
  | nil => exact h
  | cons b bytes ih =>
    refine ih ?_ fun b' hb' => hends b' (List.mem_cons_of_mem _ hb')
    unfold feed
    rw [h.current]
    show (if isRecordEnd b then _ else _ : Splitter).Holds _ _
    rw [if_pos (hends b List.mem_cons_self)]
    exact ⟨h.finished, rfl⟩

/-- At the end of a table the open record is closed. -/
theorem Holds.map_records {current : Option OpenRecord} (h : s.Holds finished current) :
    s.records.toList.map (·.fields) = finished ++ current.toList.map OpenRecord.close := by
  unfold records
  rw [h.current]
  cases current with
  | none =>
    rw [Option.toList_none, List.map_nil, List.append_nil]
    exact h.finished
  | some r =>
    show (s.finished.push _).toList.map _ = _
    rw [Array.toList_push, List.map_append, h.finished]
    rfl

/-- Bytes that do not begin with a byte order mark are data from the first one on. -/
theorem opening_of_no_mark (h : ¬ byteOrderMark <+: bytes) : opening bytes = (start 0, bytes) := by
  unfold opening
  split
  · exact absurd (List.prefix_append byteOrderMark _) h
  · rfl

theorem ofBytes_of_no_mark (h : ¬ byteOrderMark <+: bytes) :
    ofBytes bytes = bytes.foldl feed (start 0) := by
  rw [ofBytes, opening_of_no_mark h]

theorem ofBytes_of_head? (h : bytes.head? ≠ some 0xEF) :
    ofBytes bytes = bytes.foldl feed (start 0) := by
  refine ofBytes_of_no_mark ?_
  rintro ⟨data, rfl⟩
  exact h rfl

/-- A byte order mark is no data. -/
theorem ofBytes_mark (bytes : List UInt8) :
    ofBytes (byteOrderMark ++ bytes) = bytes.foldl feed (start 3) := rfl

/-- A table that is handed out at once comes to an end only if it has no data. -/
theorem ofPortions_whole (bytes : List UInt8) :
    (ofPortions (Portions.whole bytes).toList).1 = ofBytes bytes := by
  by_cases hempty : bytes = []
  · subst hempty
    rfl
  · have hwhole : (Portions.whole bytes).toList = [bytes] := if_neg hempty
    rw [hwhole]
    show ((opening bytes).1.takeIn [(opening bytes).2]).1 = (opening bytes).2.foldl feed _
    cases (opening bytes).2 with
    | nil => rfl
    | cons b data => rfl

end Splitter

/-! ## Ratings -/

namespace TableRecord

variable {r : TableRecord} {texts : List String}

/-- Fields that encode texts are read as these texts. -/
theorem textsFrom_toUTF8 (position : RecordPosition) (field : Nat) (texts : List String) :
    textsFrom position field (texts.map String.toUTF8) = .ok texts := by
  induction texts generalizing field with
  | nil => rfl
  | cons text texts ih =>
    have htext : String.fromUTF8? text.toUTF8 = some text := dif_pos text.isValidUTF8
    rw [List.map_cons, textsFrom, htext]
    show (textsFrom position (field + 1) _).map _ = _
    rw [ih]
    rfl

theorem field_eq_ok {α : Type} {index : Nat} {read : List Char → Except NumeralError α}
    {text : String} {a : α} (htext : texts[index]? = some text)
    (hread : read text.toList = .ok a) : r.field texts index read = .ok a := by
  unfold field
  rw [htext]
  show (read text.toList).mapError _ = _
  rw [hread]
  rfl

/-- A record that begins with a user, an item and a value is a rating, whatever follows. -/
theorem rating_eq_ok {user item value : String} {further : List String} {rating : Rating}
    (hfields : r.fields.toList = (user :: item :: value :: further).map String.toUTF8)
    (huser : id user.toList = .ok rating.user) (hitem : id item.toList = .ok rating.item)
    (hvalue : Numeral.real value.toList = .ok rating.value) :
    r.rating = .ok rating := by
  have huser' : r.field (user :: item :: value :: further) 0 id = .ok rating.user :=
    field_eq_ok rfl huser
  have hitem' : r.field (user :: item :: value :: further) 1 id = .ok rating.item :=
    field_eq_ok rfl hitem
  have hvalue' : r.field (user :: item :: value :: further) 2 Numeral.real = .ok rating.value :=
    field_eq_ok rfl hvalue
  unfold TableRecord.rating texts
  rw [hfields, textsFrom_toUTF8]
  simp only [bind, Except.bind, pure, Except.pure, huser', hitem', hvalue']

end TableRecord

namespace RatingTable

variable {table : ByteArray} {snapshot : PackedSnapshot}

/-- A file has an end, so what is read from it are the ratings of all its records. -/
theorem read_of_failure_eq_none (bytes : List UInt8) :
    read ⟨bytes, none⟩ =
      (ratings (Splitter.ofBytes bytes).records.toList).map PackedSnapshot.ofRatings := by
  rw [← Splitter.ofPortions_whole]
  unfold read
  simp only [ite_self]

/-- Records of one width that are ratings one by one are ratings together. -/
theorem ratings_eq_ok {records : List TableRecord} {l : List Rating} {width : Nat}
    (h : List.Forall₂ (fun r rating => r.fields.size = width ∧ r.rating = .ok rating) records l) :
    ratings records = .ok l := by
  have hmap : records.mapM (TableRecord.ratingOfWidth width) = .ok l := by
    induction h with
    | nil => rfl
    | @cons r rating records l hr _ ih =>
      have hfirst : r.ratingOfWidth width = .ok rating := by
        unfold TableRecord.ratingOfWidth TableRecord.checkWidth
        rw [if_pos hr.1]
        exact hr.2
      rw [List.mapM_cons, hfirst]
      show (records.mapM _ >>= _ : Except TableError (List Rating)) = _
      rw [ih]
      rfl
  cases h with
  | nil => rfl
  | @cons first _ records _ hfirst _ =>
    show (first :: records).mapM (TableRecord.ratingOfWidth first.fields.size) = _
    rw [hfirst.1]
    exact hmap

end RatingTable

end ItemNeighbors
