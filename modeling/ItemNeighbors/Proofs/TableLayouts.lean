import ItemNeighbors.Proofs.TableContents

/-!
# Ways to lay out a table

The same ratings can be written in many ways: fields with or without quotes, three ends of a line,
blank lines anywhere between records, a byte order mark or none, and a last record with or without
an end. Every one of them is read back as the same ratings.

- `WrittenField`, `WrittenRecord`, `TableLayout`: the choices that somebody who writes a table has.
- `WrittenField.reads`, `WrittenRecord.exists_reads`: what is written is what a record takes in.
- `IsDecimal.id_eq_ok`: digits are read as the number that they are.
- `TableLayout.read_bytes`: reading undoes writing.
-/

namespace ItemNeighbors

/-! ## Texts as bytes -/

/-- The bytes of a text. -/
def utf8 (text : String) : List UInt8 := text.toList.flatMap String.utf8EncodeChar

theorem toByteArray_utf8 (text : String) : (utf8 text).toByteArray = text.toUTF8 :=
  String.utf8Encode_toList

/-- A character below 128 is a byte of the same number, all others are bytes from 128 on. -/
theorem toNat_of_mem_utf8EncodeChar {c : Char} {b : UInt8} (h : b ∈ String.utf8EncodeChar c) :
    b.toNat = c.toNat ∨ 128 ≤ b.toNat ∧ 128 ≤ c.toNat := by
  have htoNat (n : Nat) : (UInt8.ofNat n).toNat = n % 256 := rfl
  have hc : c.val.toNat = c.toNat := rfl
  unfold String.utf8EncodeChar at h
  simp only [hc] at h
  split at h
  · obtain rfl := List.mem_singleton.mp h
    rw [htoNat]
    omega
  · refine .inr ⟨?_, by omega⟩
    split at h
    · simp only [List.mem_cons, List.not_mem_nil, or_false] at h
      obtain rfl | rfl := h <;> rw [htoNat] <;> omega
    · split at h
      · simp only [List.mem_cons, List.not_mem_nil, or_false] at h
        obtain rfl | rfl | rfl := h <;> rw [htoNat] <;> omega
      · simp only [List.mem_cons, List.not_mem_nil, or_false] at h
        obtain rfl | rfl | rfl | rfl := h <;> rw [htoNat] <;> omega

/-- A byte below 128 in a text is a character of it. -/
theorem exists_of_mem_utf8 {text : String} {b : UInt8} (h : b ∈ utf8 text) (hb : b.toNat < 128) :
    ∃ c ∈ text.toList, c.toNat = b.toNat := by
  obtain ⟨c, hc, hbc⟩ := List.mem_flatMap.mp h
  obtain heq | ⟨hle, -⟩ := toNat_of_mem_utf8EncodeChar hbc
  · exact ⟨c, hc, heq.symm⟩
  · omega

/-- A text begins with the first byte of its first character. -/
theorem exists_of_head?_utf8 {text : String} {b : UInt8} (h : (utf8 text).head? = some b) :
    ∃ c, text.toList.head? = some c ∧ b ∈ String.utf8EncodeChar c := by
  unfold utf8 at h
  cases htext : text.toList with
  | nil =>
    rw [htext] at h
    cases h
  | cons c rest =>
    have hne : String.utf8EncodeChar c ≠ [] := String.utf8EncodeChar_ne_nil
    rw [htext, List.flatMap_cons, List.head?_append, List.head?_eq_some_head hne] at h
    obtain rfl := Option.some.inj h
    exact ⟨c, rfl, List.head_mem hne⟩

/-! ## Fields -/

/-- A text that needs no quotes around it does not begin with one and has no tab and no line
end. -/
structure IsBare (text : String) : Prop where
  head?_ne : text.toList.head? ≠ some '"'
  plain : ∀ c ∈ text.toList, c ≠ '\t' ∧ c ≠ '\n' ∧ c ≠ '\r'

instance (text : String) : Decidable (IsBare text) :=
  -- the characters of the text are tried, not all that there are
  letI := List.decidableBAll (fun c => c ≠ '\t' ∧ c ≠ '\n' ∧ c ≠ '\r') text.toList
  decidable_of_iff (text.toList.head? ≠ some '"' ∧
      ∀ c ∈ text.toList, c ≠ '\t' ∧ c ≠ '\n' ∧ c ≠ '\r')
    ⟨fun h => ⟨h.1, h.2⟩, fun h => ⟨h.head?_ne, h.plain⟩⟩

/-- A field as it is written. -/
structure WrittenField where
  text : String
  quoted : Bool
  bare : quoted = false → IsBare text

/-- Inside of quotes a quote is doubled. -/
def doubled (b : UInt8) : List UInt8 := if b = 34 then [34, 34] else [b]

namespace OpenRecord

theorem append_toByteArray_cons (data : ByteArray) (b : UInt8) (bytes : List UInt8) :
    data ++ (b :: bytes).toByteArray = data.push b ++ bytes.toByteArray := by
  apply ByteArray.ext
  simp

/-- Data without tabs and line ends is taken in as it is. -/
theorem reads_plain (fields : Array ByteArray) (data : ByteArray) {bytes : List UInt8}
    (h : ∀ b ∈ bytes, b ≠ 9 ∧ isRecordEnd b = false) :
    Reads ⟨fields, data, .plain⟩ bytes ⟨fields, data ++ bytes.toByteArray, .plain⟩ := by
  induction bytes generalizing data with
  | nil =>
    have hdata : data ++ [].toByteArray = data := ByteArray.append_empty
    rw [hdata]
    exact .nil _
  | cons b bytes ih =>
    obtain ⟨htab, hend⟩ := h b List.mem_cons_self
    have hstep : step ⟨fields, data, .plain⟩ b = .more ⟨fields, data.push b, .plain⟩ := by
      show stepPlain _ b = _
      rw [stepPlain, if_neg htab, hend]
      rfl
    rw [append_toByteArray_cons]
    exact .cons hstep (ih (data.push b) fun b' hb' => h b' (List.mem_cons_of_mem _ hb'))

/-- Inside of quotes all data is taken in, doubled quotes as one. -/
theorem reads_quoted (fields : Array ByteArray) (data : ByteArray) (bytes : List UInt8) :
    Reads ⟨fields, data, .quoted⟩ (bytes.flatMap doubled)
      ⟨fields, data ++ bytes.toByteArray, .quoted⟩ := by
  induction bytes generalizing data with
  | nil =>
    have hdata : data ++ [].toByteArray = data := ByteArray.append_empty
    rw [hdata]
    exact .nil _
  | cons b bytes ih =>
    rw [append_toByteArray_cons, List.flatMap_cons]
    refine Reads.append ?_ (ih (data.push b))
    unfold doubled
    by_cases hb : b = 34
    · rw [if_pos hb, hb]
      exact .cons rfl (reads_singleton rfl)
    · rw [if_neg hb]
      exact reads_singleton (if_neg hb)

end OpenRecord

namespace WrittenField

/-- The bytes of a field. -/
def bytes (f : WrittenField) : List UInt8 :=
  if f.quoted then 34 :: ((utf8 f.text).flatMap doubled ++ [34]) else utf8 f.text

variable {f : WrittenField}

/-- What is written without quotes has no tab and no line end. -/
theorem plain_of_bare (hquoted : f.quoted = false) {b : UInt8} (hb : b ∈ utf8 f.text) :
    b ≠ 9 ∧ isRecordEnd b = false := by
  have hchars := (f.bare hquoted).plain
  have hmem (c : Char) (hc : c.toNat = b.toNat) (hlt : c.toNat < 128) : c ∈ f.text.toList := by
    obtain ⟨c', hc', heq⟩ := exists_of_mem_utf8 hb (by omega)
    rwa [Char.toNat_inj.mp (hc.trans heq.symm)]
  refine ⟨?_, ?_⟩
  · rintro rfl
    exact (hchars _ (hmem '\t' rfl (by decide))).1 rfl
  · rw [isRecordEnd, Bool.or_eq_false_iff, beq_eq_false_iff_ne, beq_eq_false_iff_ne]
    constructor
    · rintro rfl
      exact (hchars _ (hmem '\n' rfl (by decide))).2.1 rfl
    · rintro rfl
      exact (hchars _ (hmem '\r' rfl (by decide))).2.2 rfl

/-- What is written without quotes does not begin with one. -/
theorem head?_ne_quote (hquoted : f.quoted = false) : (utf8 f.text).head? ≠ some 34 := by
  intro hhead
  obtain ⟨c, hc, hmem⟩ := exists_of_head?_utf8 hhead
  obtain heq | ⟨hle, -⟩ := toNat_of_mem_utf8EncodeChar hmem
  · obtain rfl : '"' = c := Char.toNat_inj.mp heq
    exact (f.bare hquoted).head?_ne hc
  · exact absurd hle (by decide)

/-- A field is taken in as its text, and no quote is left open. -/
theorem reads (f : WrittenField) (fields : Array ByteArray) :
    ∃ state, state ≠ .quoted ∧
      OpenRecord.Reads ⟨fields, .empty, .start⟩ f.bytes ⟨fields, f.text.toUTF8, state⟩ := by
  have hdata : ByteArray.empty ++ (utf8 f.text).toByteArray = f.text.toUTF8 :=
    ByteArray.empty_append.trans (toByteArray_utf8 f.text)
  unfold bytes
  cases hquoted : f.quoted with
  | true =>
    have hinside := OpenRecord.reads_quoted fields .empty (utf8 f.text)
    rw [hdata] at hinside
    exact ⟨.quoteSeen, by decide, .cons rfl (hinside.append (OpenRecord.reads_singleton rfl))⟩
  | false =>
    -- the first byte decides that the field is plain, the others find it so
    have hplain (b : UInt8) (hb : b ∈ utf8 f.text) := plain_of_bare hquoted hb
    have hhead := head?_ne_quote hquoted
    cases hbytes : utf8 f.text with
    | nil =>
      rw [hbytes] at hdata
      exact ⟨.start, by decide, hdata ▸ .nil _⟩
    | cons b rest =>
      rw [hbytes] at hdata hplain hhead
      have hquote : b ≠ 34 := fun hb => hhead (congrArg some hb)
      obtain ⟨htab, hend⟩ := hplain b List.mem_cons_self
      have hfirst : OpenRecord.step ⟨fields, .empty, .start⟩ b =
          .more ⟨fields, ByteArray.empty.push b, .plain⟩ := by
        show (if b = 34 then _ else OpenRecord.stepPlain _ b) = _
        rw [if_neg hquote, OpenRecord.stepPlain, if_neg htab, hend]
        rfl
      have hrest := OpenRecord.reads_plain fields (ByteArray.empty.push b)
        fun b' hb' => hplain b' (List.mem_cons_of_mem _ hb')
      rw [← OpenRecord.append_toByteArray_cons, hdata] at hrest
      exact ⟨.plain, by decide, .cons hfirst hrest⟩

/-- The bytes of some fields, with tabs between them. -/
def joined (f : WrittenField) (rest : List WrittenField) : List UInt8 :=
  f.bytes ++ rest.flatMap fun next => 9 :: next.bytes

/-- Fields with tabs between them are taken in as their texts. -/
theorem exists_reads_joined (f : WrittenField) (rest : List WrittenField)
    (fields : Array ByteArray) :
    ∃ r : OpenRecord, r.state ≠ .quoted ∧
      r.close.toList = fields.toList ++ (f :: rest).map (·.text.toUTF8) ∧
        OpenRecord.Reads ⟨fields, .empty, .start⟩ (joined f rest) r := by
  induction rest generalizing f fields with
  | nil =>
    obtain ⟨state, hstate, hreads⟩ := f.reads fields
    refine ⟨⟨fields, f.text.toUTF8, state⟩, hstate, Array.toList_push, ?_⟩
    rw [joined, List.flatMap_nil, List.append_nil]
    exact hreads
  | cons next rest ih =>
    obtain ⟨state, hstate, hreads⟩ := f.reads fields
    obtain ⟨r, hr, hclose, hrest⟩ := ih next (fields.push f.text.toUTF8)
    refine ⟨r, hr, ?_, ?_⟩
    · rw [hclose, Array.toList_push, List.append_assoc]
      rfl
    · rw [joined, List.flatMap_cons]
      exact hreads.append (.cons (OpenRecord.step_tab hstate) hrest)

end WrittenField

/-! ## Numbers -/

/-- A text that is a number in decimal digits. -/
structure IsDecimal (text : String) (number : UInt64) : Prop where
  nonempty : text.toList ≠ []
  digits : ∀ c ∈ text.toList, c.isDigit = true
  value : Nat.ofDigitChars 10 text.toList 0 = number.toNat

instance (text : String) (number : UInt64) : Decidable (IsDecimal text number) :=
  letI := List.decidableBAll (fun c => c.isDigit = true) text.toList
  decidable_of_iff (text.toList ≠ [] ∧ (∀ c ∈ text.toList, c.isDigit = true) ∧
      Nat.ofDigitChars 10 text.toList 0 = number.toNat)
    ⟨fun h => ⟨h.1, h.2.1, h.2.2⟩, fun h => ⟨h.nonempty, h.digits, h.value⟩⟩

namespace Numeral

theorem digitValue?_ten {c : Char} (h : c.isDigit = true) :
    digitValue? 10 c = some (c.toNat - '0'.toNat) := by
  rw [Char.isDigit, Bool.and_eq_true, decide_eq_true_iff, decide_eq_true_iff] at h
  obtain ⟨hge, hle⟩ : '0' ≤ c ∧ c ≤ '9' := h
  have hlt : c.toNat - '0'.toNat < 10 := by
    have hnine : c.toNat ≤ '9'.toNat := hle
    have hvalues : '0'.toNat = 48 ∧ '9'.toNat = 57 := by decide
    omega
  unfold digitValue?
  rw [if_pos ⟨hge, hle⟩, Option.filter_some, if_pos (decide_eq_true hlt)]

/-- Digits make a number no smaller. -/
theorem le_ofDigitChars (digits : List Char) (number : Nat) :
    number ≤ Nat.ofDigitChars 10 digits number := by
  induction digits generalizing number with
  | nil => exact Nat.le_refl number
  | cons c rest ih =>
    rw [Nat.ofDigitChars_cons]
    exact Nat.le_trans (by omega) (ih _)

/-- Digits are read if the number that they make is a word. -/
theorem wordFrom_eq_ok {digits : List Char} (hdigits : ∀ c ∈ digits, c.isDigit = true)
    {number : Nat} (hsize : Nat.ofDigitChars 10 digits number < UInt64.size) :
    wordFrom 10 number digits = .ok (UInt64.ofNat (Nat.ofDigitChars 10 digits number)) := by
  induction digits generalizing number with
  | nil => rfl
  | cons c rest ih =>
    rw [Nat.ofDigitChars_cons, Nat.mul_comm] at hsize ⊢
    have hprefix := Nat.lt_of_le_of_lt (le_ofDigitChars rest _) hsize
    rw [wordFrom, digitValue?_ten (hdigits c List.mem_cons_self)]
    show (if number * 10 + _ < UInt64.size then wordFrom 10 _ rest else _) = _
    rw [if_pos hprefix]
    exact ih (fun c' hc' => hdigits c' (List.mem_cons_of_mem _ hc')) hsize

end Numeral

namespace IsDecimal

variable {text : String} {number : UInt64}

/-- A user or item in decimal digits is read as its number. -/
theorem id_eq_ok (h : IsDecimal text number) : TableRecord.id text.toList = .ok number := by
  have hword : Numeral.wordFrom 10 0 text.toList = .ok number := by
    rw [Numeral.wordFrom_eq_ok h.digits (h.value ▸ number.toNat_lt), h.value,
      UInt64.ofNat_toNat]
  -- neither the mark of base sixteen nor a sign is a digit
  unfold TableRecord.id
  split
  · rename_i digits htext
    exact absurd (h.digits 'x' (by rw [htext]; simp)) (by decide)
  · unfold Numeral.word
    split
    · rename_i htext
      exact absurd htext h.nonempty
    · rename_i htext
      exact absurd (h.digits '+' (by rw [htext]; simp)) (by decide)
    · rename_i digits _ htext
      exact absurd (h.digits '+' (by rw [htext]; simp)) (by decide)
    · exact hword

end IsDecimal

/-! ## Records -/

/-- A record as it is written. It begins with a user, an item and a value, and a number of fields
follow that mean nothing. -/
structure WrittenRecord (furtherFields : Nat) where
  user : WrittenField
  item : WrittenField
  value : WrittenField
  further : List WrittenField
  /-- What the record says. -/
  rating : Rating
  length_further : further.length = furtherFields
  user_eq : IsDecimal user.text rating.user
  item_eq : IsDecimal item.text rating.item
  value_eq : Numeral.real value.text.toList = .ok rating.value

variable {furtherFields : Nat}

namespace WrittenRecord

/-- The bytes of a record without its end. -/
def bytes (r : WrittenRecord furtherFields) : List UInt8 :=
  r.user.joined (r.item :: r.value :: r.further)

/-- What a reader of the table gets for the record. -/
def fields (r : WrittenRecord furtherFields) : Array ByteArray :=
  ((r.user :: r.item :: r.value :: r.further).map (·.text.toUTF8)).toArray

variable {r : WrittenRecord furtherFields} {record : TableRecord}

/-- A record has at least one tab in it. -/
theorem bytes_ne_nil (r : WrittenRecord furtherFields) : r.bytes ≠ [] := by
  rw [bytes, WrittenField.joined, List.flatMap_cons]
  exact List.append_ne_nil_of_right_ne_nil _ (List.cons_ne_nil _ _)

/-- A record is taken in as its fields, and no quote is left open. -/
theorem exists_reads (r : WrittenRecord furtherFields) :
    ∃ current : OpenRecord, current.state ≠ .quoted ∧ current.close = r.fields ∧
      OpenRecord.start.Reads r.bytes current := by
  obtain ⟨current, hstate, hclose, hreads⟩ :=
    r.user.exists_reads_joined (r.item :: r.value :: r.further) #[]
  exact ⟨current, hstate, Array.toList_inj.mp hclose, hreads⟩

theorem size_fields (r : WrittenRecord furtherFields) : r.fields.size = furtherFields + 3 := by
  rw [fields, List.size_toArray, List.length_map]
  exact congrArg (· + 3) r.length_further

/-- The fields of a record are read as its rating. -/
theorem rating_of_fields_eq (h : record.fields = r.fields) : record.rating = .ok r.rating := by
  have hfields : record.fields.toList =
      (r.user.text :: r.item.text :: r.value.text :: r.further.map (·.text)).map String.toUTF8 := by
    rw [h, fields, List.map_cons, List.map_cons, List.map_cons, List.map_cons, List.map_cons,
      List.map_cons, List.map_map]
    rfl
  exact TableRecord.rating_eq_ok hfields r.user_eq.id_eq_ok r.item_eq.id_eq_ok r.value_eq

end WrittenRecord

/-! ## Tables -/

/-- How a line can end. -/
inductive LineEnd where
  | lf
  | cr
  | crlf
deriving DecidableEq

/-- The bytes that end a line. -/
def LineEnd.bytes : LineEnd → List UInt8
  | lf => [10]
  | cr => [13]
  | crlf => [13, 10]

/-- A record, its end, and the blank lines that follow. -/
structure WrittenLine (furtherFields : Nat) where
  record : WrittenRecord furtherFields
  lineEnd : LineEnd
  blanks : List LineEnd

namespace WrittenLine

/-- The bytes of a record with all that follows up to the next record. -/
def bytes (l : WrittenLine furtherFields) : List UInt8 :=
  l.record.bytes ++ (l.lineEnd.bytes ++ l.blanks.flatMap LineEnd.bytes)

end WrittenLine

/-- A table as it is written. -/
structure TableLayout (furtherFields : Nat) where
  /-- Whether a byte order mark comes first. -/
  mark : Bool
  /-- The blank lines before the first record. -/
  blanks : List LineEnd
  lines : List (WrittenLine furtherFields)
  /-- A last record that the end of the table ends. -/
  last : Option (WrittenRecord furtherFields)

namespace TableLayout

/-- The bytes of a table after the byte order mark. -/
def body (t : TableLayout furtherFields) : List UInt8 :=
  t.blanks.flatMap LineEnd.bytes ++
    (t.lines.flatMap WrittenLine.bytes ++ t.last.toList.flatMap WrittenRecord.bytes)

/-- The bytes of a table. -/
def bytes (t : TableLayout furtherFields) : List UInt8 :=
  if t.mark then byteOrderMark ++ t.body else t.body

/-- The records of a table in their order. -/
def records (t : TableLayout furtherFields) : List (WrittenRecord furtherFields) :=
  t.lines.map (·.record) ++ t.last.toList

end TableLayout

/-! ## Reading -/

namespace Splitter

variable {s : Splitter} {finished : List (Array ByteArray)}

/-- Blank lines between records count for nothing. -/
theorem Holds.foldl_blanks (h : s.Holds finished none) (blanks : List LineEnd) :
    ((blanks.flatMap LineEnd.bytes).foldl feed s).Holds finished none := by
  refine h.foldl_blank fun b hb => ?_
  obtain ⟨e, -, hb⟩ := List.mem_flatMap.mp hb
  cases e with
  | lf => exact List.mem_singleton.mp hb ▸ rfl
  | cr => exact List.mem_singleton.mp hb ▸ rfl
  | crlf =>
    obtain rfl | hb := List.mem_cons.mp hb
    · rfl
    · exact List.mem_singleton.mp hb ▸ rfl

/-- A line end ends a record once, also where it has two bytes. -/
theorem Holds.foldl_lineEnd {r : OpenRecord} (h : s.Holds finished (some r))
    (hstate : r.state ≠ .quoted) (e : LineEnd) :
    (e.bytes.foldl feed s).Holds (finished ++ [r.close]) none := by
  cases e with
  | lf => exact h.feed_end hstate rfl
  | cr => exact h.feed_end hstate rfl
  | crlf =>
    have hblank (b : UInt8) (hb : b ∈ [10]) : isRecordEnd b = true := by
      obtain rfl := List.mem_singleton.mp hb
      rfl
    exact (h.feed_end hstate rfl).foldl_blank hblank

/-- A record with its end is finished. -/
theorem Holds.foldl_line (h : s.Holds finished none) (l : WrittenLine furtherFields) :
    (l.bytes.foldl feed s).Holds (finished ++ [l.record.fields]) none := by
  obtain ⟨current, hstate, hclose, hreads⟩ := l.record.exists_reads
  rw [WrittenLine.bytes, List.foldl_append, List.foldl_append, ← hclose]
  exact ((h.foldl_begin hreads l.record.bytes_ne_nil).foldl_lineEnd hstate l.lineEnd).foldl_blanks
    l.blanks

theorem Holds.foldl_lines (h : s.Holds finished none) (lines : List (WrittenLine furtherFields)) :
    ((lines.flatMap WrittenLine.bytes).foldl feed s).Holds
      (finished ++ lines.map (·.record.fields)) none := by
  induction lines generalizing s finished with
  | nil =>
    rw [List.map_nil, List.append_nil]
    exact h
  | cons l lines ih =>
    rw [List.flatMap_cons, List.foldl_append, List.map_cons, List.append_cons]
    exact ih (h.foldl_line l)

/-- After the whole table the records are there, whether or not the last one has an end. -/
theorem Holds.map_records_body (h : s.Holds [] none) (t : TableLayout furtherFields) :
    (t.body.foldl feed s).records.toList.map (·.fields) = t.records.map (·.fields) := by
  have hlines := (h.foldl_blanks t.blanks).foldl_lines t.lines
  rw [List.nil_append] at hlines
  rw [TableLayout.body, List.foldl_append, List.foldl_append, TableLayout.records, List.map_append,
    List.map_map]
  cases t.last with
  | none => exact hlines.map_records
  | some last =>
    obtain ⟨current, hstate, hclose, hreads⟩ := last.exists_reads
    have hlast := hlines.foldl_begin hreads last.bytes_ne_nil
    rw [Option.toList_some, List.flatMap_singleton, hlast.map_records, Option.toList_some,
      List.map_singleton, List.map_singleton, hclose]
    rfl

end Splitter

/-! ### Without a byte order mark -/

theorem head?_append_ne {b : UInt8} {l l' : List UInt8} (h : l.head? ≠ some b)
    (h' : l'.head? ≠ some b) : (l ++ l').head? ≠ some b := by
  rw [List.head?_append, ne_eq, Option.or_eq_some_iff]
  rintro (hl | ⟨-, hl'⟩)
  · exact h hl
  · exact h' hl'

theorem head?_flatMap_ne {α : Type} {b : UInt8} {f : α → List UInt8}
    (h : ∀ a, (f a).head? ≠ some b) (l : List α) : (l.flatMap f).head? ≠ some b := by
  induction l with
  | nil => exact fun hnil => Option.some_ne_none b hnil.symm
  | cons a l ih =>
    rw [List.flatMap_cons]
    exact head?_append_ne (h a) ih

theorem LineEnd.head?_bytes_ne (e : LineEnd) : e.bytes.head? ≠ some 0xEF := by
  cases e <;> decide

/-- A record begins with a quote or a digit. -/
theorem WrittenRecord.head?_bytes_ne (r : WrittenRecord furtherFields) :
    r.bytes.head? ≠ some 0xEF := by
  refine head?_append_ne ?_ (head?_flatMap_ne (fun _ => ?_) _)
  · unfold WrittenField.bytes
    split
    · exact fun h => absurd (Option.some.inj h) (by decide)
    · intro hhead
      obtain ⟨c, hc, hmem⟩ := exists_of_head?_utf8 hhead
      have hdigit := r.user_eq.digits c (List.mem_of_head? hc)
      rw [Char.isDigit, Bool.and_eq_true, decide_eq_true_iff, decide_eq_true_iff] at hdigit
      have hle : c.toNat ≤ '9'.toNat := hdigit.2
      have hvalues : '9'.toNat = 57 ∧ (0xEF : UInt8).toNat = 239 := by decide
      obtain heq | ⟨-, hge⟩ := toNat_of_mem_utf8EncodeChar hmem <;> omega
  · exact fun h => absurd (Option.some.inj h) (by decide)

namespace TableLayout

/-- A table without a byte order mark does not begin like one. -/
theorem head?_body_ne (t : TableLayout furtherFields) : t.body.head? ≠ some 0xEF := by
  refine head?_append_ne (head?_flatMap_ne LineEnd.head?_bytes_ne _)
    (head?_append_ne (head?_flatMap_ne (fun l => ?_) _) (head?_flatMap_ne (fun r => ?_) _))
  · exact head?_append_ne l.record.head?_bytes_ne (head?_append_ne l.lineEnd.head?_bytes_ne
      (head?_flatMap_ne LineEnd.head?_bytes_ne _))
  · exact r.head?_bytes_ne

/-- A table is split into its records. -/
theorem map_records_ofBytes (t : TableLayout furtherFields) :
    (Splitter.ofBytes t.bytes).records.toList.map (·.fields) = t.records.map (·.fields) := by
  unfold bytes
  cases t.mark with
  | true =>
    show (Splitter.ofBytes (byteOrderMark ++ t.body)).records.toList.map _ = _
    rw [Splitter.ofBytes_mark]
    exact (Splitter.holds_start 3).map_records_body t
  | false =>
    show (Splitter.ofBytes t.body).records.toList.map _ = _
    rw [Splitter.ofBytes_of_head? t.head?_body_ne]
    exact (Splitter.holds_start 0).map_records_body t

/-- **Reading undoes writing.** However a table is laid out, its ratings are read, in the order of
the records: with any fields in quotes, any ends of lines, any blank lines before, between and
after the records, with or without a byte order mark, and with or without an end of the last
record. -/
theorem read_bytes (t : TableLayout furtherFields) :
    RatingTable.read ⟨t.bytes, none⟩ =
      .ok (PackedSnapshot.ofRatings (t.records.map (·.rating))) := by
  have hfields := t.map_records_ofBytes
  rw [← List.forall₂_eq_eq_eq, List.forall₂_map_left_iff, List.forall₂_map_right_iff] at hfields
  have hread : List.Forall₂ (fun record (r : WrittenRecord furtherFields) =>
      record.fields.size = furtherFields + 3 ∧ record.rating = .ok r.rating)
      (Splitter.ofBytes t.bytes).records.toList t.records :=
    hfields.imp fun _ r h => ⟨h ▸ r.size_fields, r.rating_of_fields_eq h⟩
  rw [RatingTable.read_of_failure_eq_none,
    RatingTable.ratings_eq_ok (List.forall₂_map_right_iff.mpr hread)]
  rfl

/-- A table with a byte order mark, blank lines, quotes, a tab in a field and no end of its last
record. -/
theorem read_bytes_of_mixed_table :
    RatingTable.read
        ⟨byteOrderMark ++ utf8 ("\r\n\"7\"\t1\t4.0\t\"a\"\"\tb\"\r\n" ++
          "\n\r12\t\"05\"\t-5e-1\t"), none⟩ =
      .ok (PackedSnapshot.ofRatings [⟨7, 1, 4.0⟩, ⟨12, 5, -0.5⟩]) := by
  let first : WrittenRecord 1 :=
    { user := ⟨"7", true, nofun⟩
      item := ⟨"1", false, by decide⟩
      value := ⟨"4.0", false, by decide⟩
      further := [⟨"a\"\tb", true, nofun⟩]
      rating := ⟨7, 1, 4.0⟩
      length_further := rfl
      user_eq := by decide
      item_eq := by decide
      value_eq := by decide +kernel }
  let second : WrittenRecord 1 :=
    { user := ⟨"12", false, by decide⟩
      item := ⟨"05", true, nofun⟩
      value := ⟨"-5e-1", false, by decide⟩
      further := [⟨"", false, by decide⟩]
      rating := ⟨12, 5, -0.5⟩
      length_further := rfl
      user_eq := by decide
      item_eq := by decide
      value_eq := by decide +kernel }
  let table : TableLayout 1 := ⟨true, [.crlf], [⟨first, .crlf, [.lf, .cr]⟩], some second⟩
  have hbytes : table.bytes = byteOrderMark ++ utf8 ("\r\n\"7\"\t1\t4.0\t\"a\"\"\tb\"\r\n" ++
      "\n\r12\t\"05\"\t-5e-1\t") := by decide +kernel
  rw [← hbytes]
  exact table.read_bytes

end TableLayout

end ItemNeighbors
