import ItemNeighbors.Proofs.TableContents

/-!
# Rejected records

A record of a rating table is looked at in three steps, the first of which that fails decides what
is reported: whether it is as wide as the first record, whether its fields are texts, and whether
the first three of them are the numbers of a rating.

- `TableRecord.FieldFault`: what can be wrong with a field.
- `TableRecord.Rejected`: what can be wrong with a record.
- `TableRecord.texts_eq_ok_iff`, `TableRecord.texts_eq_error_iff`, `TableRecord.rating_eq_error_iff`:
  what the steps come to.
- `TableRecord.ratingOfWidth_eq_error_iff`: a record is no rating exactly if it is rejected.
-/

namespace ItemNeighbors

namespace TableRecord

/-- The text of a field of a rating is not the number that it has to be: the first two fields are
ids and the third one is a value. -/
def Malformed : Nat → String → NumeralError → Prop
  | 0, text, cause => id text.toList = .error cause
  | 1, text, cause => id text.toList = .error cause
  | _, text, cause => Numeral.real text.toList = .error cause

/-- What is wrong with a field of a rating. -/
inductive FieldFault (r : TableRecord) (texts : List String) (i : Nat) : TableError → Prop where
  | missing (h : texts[i]? = none) : FieldFault r texts i (.missingField r.position i)
  | malformed {text : String} {cause : NumeralError} (htext : texts[i]? = some text)
      (h : Malformed i text cause) : FieldFault r texts i (.malformedField r.position i cause)

/-- What is wrong with a record of a table of a given width. All fields have to be texts, and only
then the first three are looked at, one after the other. -/
inductive Rejected (r : TableRecord) (width : Nat) : TableError → Prop where
  | unequalLengths (h : r.fields.size ≠ width) :
      Rejected r width (.unequalLengths r.position r.fields.size width)
  | notText {i : Nat} {bytes : ByteArray} (hwidth : r.fields.size = width)
      (hfield : r.fields.toList[i]? = some bytes) (h : ¬ bytes.IsValidUTF8)
      (hbefore : ∀ b ∈ r.fields.toList.take i, b.IsValidUTF8) :
      Rejected r width (.notText r.position i (Utf8.validLength bytes))
  | field {texts : List String} {i : Nat} {e : TableError} (hwidth : r.fields.size = width)
      (htexts : r.fields.toList = texts.map String.toUTF8) (hi : i < 3)
      (h : FieldFault r texts i e) (hbefore : ∀ j < i, ∀ e', ¬ FieldFault r texts j e') :
      Rejected r width e

variable {r : TableRecord} {texts : List String} {width i : Nat} {e e' : TableError}

/-! ## Texts -/

theorem fromUTF8?_eq_some_iff {bytes : ByteArray} {text : String} :
    String.fromUTF8? bytes = some text ↔ bytes = text.toUTF8 := by
  unfold String.fromUTF8?
  constructor
  · intro h
    split at h
    · cases h
      rfl
    · cases h
  · rintro rfl
    exact dif_pos text.isValidUTF8

theorem fromUTF8?_eq_none_iff {bytes : ByteArray} :
    String.fromUTF8? bytes = none ↔ ¬ bytes.IsValidUTF8 := by
  unfold String.fromUTF8?
  split <;> simp_all

/-- Fields that are read as texts encode them. -/
theorem eq_map_of_textsFrom_eq_ok {position : RecordPosition} {first : Nat}
    {fields : List ByteArray} (h : textsFrom position first fields = .ok texts) :
    fields = texts.map String.toUTF8 := by
  induction fields generalizing first texts with
  | nil =>
    cases h
    rfl
  | cons bytes fields ih =>
    unfold textsFrom at h
    split at h
    · rename_i text htext
      cases hrest : textsFrom position (first + 1) fields with
      | error e =>
        rw [hrest] at h
        cases h
      | ok rest =>
        rw [hrest] at h
        cases h
        rw [List.map_cons, ← fromUTF8?_eq_some_iff.mp htext, ← ih hrest]
    · cases h

/-- The first field that is no text is reported. -/
theorem textsFrom_eq_error_iff {position : RecordPosition} {first : Nat}
    {fields : List ByteArray} :
    textsFrom position first fields = .error e ↔ ∃ i bytes, fields[i]? = some bytes ∧
      ¬ bytes.IsValidUTF8 ∧ (∀ b ∈ fields.take i, b.IsValidUTF8) ∧
        e = .notText position (first + i) (Utf8.validLength bytes) := by
  induction fields generalizing first with
  | nil => simp [textsFrom]
  | cons bytes fields ih =>
    cases htext : String.fromUTF8? bytes with
    | none =>
      have hbad := fromUTF8?_eq_none_iff.mp htext
      rw [textsFrom, htext]
      constructor
      · intro h
        cases h
        exact ⟨0, bytes, rfl, hbad, by simp, rfl⟩
      · rintro ⟨i, b, hb, hinvalid, hbefore, rfl⟩
        cases i with
        | zero =>
          cases hb
          rfl
        | succ i => exact absurd (hbefore bytes (by simp)) hbad
    | some text =>
      have hgood : bytes.IsValidUTF8 := fromUTF8?_eq_some_iff.mp htext ▸ text.isValidUTF8
      rw [textsFrom, htext]
      show Except.map _ (textsFrom position (first + 1) fields) = _ ↔ _
      have hmap : (textsFrom position (first + 1) fields).map (text :: ·) = .error e ↔
          textsFrom position (first + 1) fields = .error e := by
        cases textsFrom position (first + 1) fields <;> simp [Except.map]
      rw [hmap, ih]
      constructor
      · rintro ⟨i, b, hb, hinvalid, hbefore, rfl⟩
        exact ⟨i + 1, b, hb, hinvalid, by simpa [hgood] using hbefore, by rw [Nat.add_right_comm]; rfl⟩
      · rintro ⟨i, b, hb, hinvalid, hbefore, rfl⟩
        cases i with
        | zero =>
          cases hb
          exact absurd hgood hinvalid
        | succ i =>
          refine ⟨i, b, hb, hinvalid, fun b' hb' => hbefore b' ?_, by rw [Nat.add_right_comm]; rfl⟩
          simp [hb']

theorem texts_eq_ok_iff : r.texts = .ok texts ↔ r.fields.toList = texts.map String.toUTF8 := by
  constructor
  · exact eq_map_of_textsFrom_eq_ok
  · intro h
    rw [TableRecord.texts, h, textsFrom_toUTF8]

theorem texts_eq_error_iff :
    r.texts = .error e ↔ ∃ i bytes, r.fields.toList[i]? = some bytes ∧ ¬ bytes.IsValidUTF8 ∧
      (∀ b ∈ r.fields.toList.take i, b.IsValidUTF8) ∧
        e = .notText r.position i (Utf8.validLength bytes) := by
  rw [TableRecord.texts, textsFrom_eq_error_iff]
  simp only [Nat.zero_add]

/-! ## Fields -/

/-- A field is not read exactly if something is wrong with it. -/
theorem field_eq_error_iff {α : Type} {read : List Char → Except NumeralError α}
    (hread : ∀ text cause, Malformed i text cause ↔ read text.toList = .error cause) :
    r.field texts i read = .error e ↔ FieldFault r texts i e := by
  unfold field
  cases htext : texts[i]? with
  | none =>
    constructor
    · intro h
      cases h
      exact .missing htext
    · rintro (hnone | ⟨hsome, h⟩)
      · rfl
      · rw [htext] at hsome
        cases hsome
  | some text =>
    show (read text.toList).mapError _ = _ ↔ _
    constructor
    · intro h
      cases hcause : read text.toList with
      | ok a =>
        rw [hcause] at h
        cases h
      | error cause =>
        rw [hcause] at h
        cases h
        exact .malformed htext ((hread text cause).mpr hcause)
    · rintro (hnone | ⟨hsome, h⟩)
      · rw [htext] at hnone
        cases hnone
      · rw [htext] at hsome
        cases hsome
        rw [(hread _ _).mp h]
        rfl

theorem Malformed.cause_unique {text : String} {cause cause' : NumeralError}
    (h : Malformed i text cause) (h' : Malformed i text cause') : cause = cause' := by
  match i with
  | 0 => exact Except.error.inj (h.symm.trans h')
  | 1 => exact Except.error.inj (h.symm.trans h')
  | _ + 2 => exact Except.error.inj (h.symm.trans h')

theorem FieldFault.unique (h : FieldFault r texts i e) (h' : FieldFault r texts i e') :
    e = e' := by
  cases h with
  | missing hnone =>
    cases h' with
    | missing => rfl
    | malformed htext => cases hnone.symm.trans htext
  | malformed htext hbad =>
    cases h' with
    | missing hnone => cases hnone.symm.trans htext
    | malformed htext' hbad' =>
      cases htext.symm.trans htext'
      rw [hbad.cause_unique hbad']

/-- The first fault of the first three fields of a record. -/
def FirstFault (r : TableRecord) (texts : List String) (e : TableError) : Prop :=
  ∃ i < 3, FieldFault r texts i e ∧ ∀ j < i, ∀ e', ¬ FieldFault r texts j e'

/-- There is one first fault. -/
theorem FieldFault.firstFault_iff (h : FieldFault r texts i e) (hi : i < 3)
    (hbefore : ∀ j < i, ∀ e', ¬ FieldFault r texts j e') :
    FirstFault r texts e' ↔ e = e' := by
  constructor
  · rintro ⟨k, -, hk, hbefore'⟩
    obtain hlt | rfl | hgt := Nat.lt_trichotomy i k
    · exact absurd h (hbefore' i hlt e)
    · exact h.unique hk
    · exact absurd hk (hbefore k hgt e')
  · rintro rfl
    exact ⟨i, hi, h, hbefore⟩

/-- Nothing is wrong with a field that is read. -/
theorem not_fieldFault_of_field_eq_ok {α : Type} {read : List Char → Except NumeralError α} {a : α}
    (hread : ∀ text cause, Malformed i text cause ↔ read text.toList = .error cause)
    (h : r.field texts i read = .ok a) (e : TableError) : ¬ FieldFault r texts i e := by
  intro hfault
  rw [(field_eq_error_iff hread).mpr hfault] at h
  cases h

/-- The first field that something is wrong with is reported. -/
theorem rating_eq_error_iff (htexts : r.texts = .ok texts) :
    r.rating = .error e ↔ FirstFault r texts e := by
  unfold rating
  simp only [bind, Except.bind, htexts]
  cases h₀ : r.field texts 0 id with
  | error e₀ =>
    have hfault : FieldFault r texts 0 e₀ := (field_eq_error_iff fun _ _ => Iff.rfl).mp h₀
    rw [hfault.firstFault_iff (by decide) (by simp)]
    simp
  | ok user =>
    have hbefore : ∀ j < 1, ∀ e', ¬ FieldFault r texts j e' :=
      Nat.forall_lt_succ_right.mpr
        ⟨by simp, not_fieldFault_of_field_eq_ok (fun _ _ => Iff.rfl) h₀⟩
    cases h₁ : r.field texts 1 id with
    | error e₁ =>
      have hfault : FieldFault r texts 1 e₁ := (field_eq_error_iff fun _ _ => Iff.rfl).mp h₁
      rw [hfault.firstFault_iff (by decide) hbefore]
      simp
    | ok item =>
      have hbefore : ∀ j < 2, ∀ e', ¬ FieldFault r texts j e' :=
        Nat.forall_lt_succ_right.mpr
          ⟨hbefore, not_fieldFault_of_field_eq_ok (fun _ _ => Iff.rfl) h₁⟩
      cases h₂ : r.field texts 2 Numeral.real with
      | error e₂ =>
        have hfault : FieldFault r texts 2 e₂ := (field_eq_error_iff fun _ _ => Iff.rfl).mp h₂
        rw [hfault.firstFault_iff (by decide) hbefore]
        simp
      | ok value =>
        have hnone : ¬ FirstFault r texts e := by
          rintro ⟨k, hk, hfault, -⟩
          exact Nat.forall_lt_succ_right.mpr
            ⟨hbefore, not_fieldFault_of_field_eq_ok (fun _ _ => Iff.rfl) h₂⟩ k hk e hfault
        simp [hnone, pure, Except.pure]

/-- **A record is no rating exactly if it is rejected.** -/
theorem ratingOfWidth_eq_error_iff : r.ratingOfWidth width = .error e ↔ r.Rejected width e := by
  unfold ratingOfWidth checkWidth
  by_cases hwidth : r.fields.size = width
  · rw [if_pos hwidth]
    show r.rating = .error e ↔ _
    cases htexts : r.texts with
    | error e' =>
      have hrating : r.rating = .error e' := by
        unfold rating
        rw [htexts]
        rfl
      rw [hrating]
      constructor
      · intro h
        cases h
        obtain ⟨i, bytes, hbytes, hbad, hbefore, rfl⟩ := texts_eq_error_iff.mp htexts
        exact .notText hwidth hbytes hbad hbefore
      · rintro (h | ⟨-, hbytes, hbad, hbefore⟩ | ⟨-, hmap, -⟩)
        · exact absurd hwidth h
        · cases htexts.symm.trans (texts_eq_error_iff.mpr ⟨_, _, hbytes, hbad, hbefore, rfl⟩)
          rfl
        · cases htexts.symm.trans (texts_eq_ok_iff.mpr hmap)
    | ok texts =>
      rw [rating_eq_error_iff htexts]
      constructor
      · rintro ⟨i, hi, hfault, hbefore⟩
        exact .field hwidth (texts_eq_ok_iff.mp htexts) hi hfault hbefore
      · rintro (h | ⟨-, hbytes, hbad, hbefore⟩ | ⟨-, hmap, hi, hfault, hbefore⟩)
        · exact absurd hwidth h
        · cases htexts.symm.trans (texts_eq_error_iff.mpr ⟨_, _, hbytes, hbad, hbefore, rfl⟩)
        · cases htexts.symm.trans (texts_eq_ok_iff.mpr hmap)
          exact ⟨_, hi, hfault, hbefore⟩
  · rw [if_neg hwidth]
    show Except.error _ = Except.error e ↔ _
    constructor
    · intro h
      cases h
      exact .unequalLengths hwidth
    · rintro (h | ⟨h, -⟩ | ⟨h, -⟩)
      · rfl
      · exact absurd h hwidth
      · exact absurd h hwidth

end TableRecord

end ItemNeighbors
