import ItemNeighbors.Numeral
import ItemNeighbors.Snapshot.Packed
import ItemNeighbors.Table
import ItemNeighbors.Utf8

/-!
# Tables of ratings

Each record of a rating table begins with a user, an item and a value. All records have as many
fields as the first one, all fields are text, and fields after the third are not looked at.

- `RatingTable.read`: the ratings of a table, or what is wrong with its first bad record.
- `TableError`: what can be wrong.
-/

namespace ItemNeighbors

/-- What keeps a table from being read. -/
inductive TableError where
  /-- The bytes could not be had. -/
  | sourceFailed (reason : String)
  /-- A record has not as many fields as the first one. -/
  | unequalLengths (position : RecordPosition) (found expected : Nat)
  /-- A field is no text: it is one up to the given byte only. -/
  | notText (position : RecordPosition) (field byte : Nat)
  /-- A record ends before this field. -/
  | missingField (position : RecordPosition) (field : Nat)
  /-- A field is no number. -/
  | malformedField (position : RecordPosition) (field : Nat) (cause : NumeralError)
deriving DecidableEq

/-- A record by its number and place. -/
def RecordPosition.text (p : RecordPosition) : String :=
  "record " ++ toString p.ordinal ++ " (line: " ++ toString p.place.line ++ ", byte: "
    ++ toString p.place.byte ++ ")"

/-- The text that tells a person about the error. -/
def TableError.message : TableError → String
  | sourceFailed reason => reason
  | unequalLengths position found expected =>
    "CSV error: " ++ position.text ++ ": found record with " ++ toString found
      ++ " fields, but the previous record has " ++ toString expected ++ " fields"
  | notText position field byte =>
    "CSV parse error: record " ++ toString position.ordinal ++ " (line "
      ++ toString position.place.line ++ ", field: " ++ toString field ++ ", byte: "
      ++ toString position.place.byte ++ "): invalid utf-8: invalid UTF-8 in field "
      ++ toString field ++ " near byte index " ++ toString byte
  | missingField position field =>
    "CSV deserialize error: " ++ position.text ++ ": invalid length " ++ toString field
      ++ ", expected struct RatingRecord with 3 elements"
  | malformedField position field cause =>
    "CSV deserialize error: " ++ position.text ++ ": field " ++ toString field ++ ": "
      ++ cause.message

/-- Bytes as a source hands them out, which it does in portions. None of these is empty: a source
that has nothing more to hand out is at its end. -/
structure Portions where
  toList : List (List UInt8)
  ne_nil : ∀ portion ∈ toList, portion ≠ []

/-- Bytes that are handed out at once. -/
def Portions.whole (bytes : List UInt8) : Portions where
  toList := if bytes = [] then [] else [bytes]
  ne_nil := by
    intro portion h
    split at h
    · cases h
    · obtain rfl := List.mem_singleton.mp h
      assumption

instance : Coe (List UInt8) Portions := ⟨.whole⟩

/-- Where the bytes of a table come from. -/
structure Source where
  /-- What the buffer of a reader is filled with, time after time. -/
  portions : Portions
  /-- The reason why no more portions come, if it is not that there are none. -/
  failure : Option String

/-- All the bytes of a text or file. -/
def Source.ofBytes (bytes : ByteArray) : Source := ⟨bytes.toList, none⟩

namespace TableRecord

/-- The record has as many fields as expected. -/
def checkWidth (r : TableRecord) (expected : Nat) : Except TableError Unit :=
  if r.fields.size = expected then .ok ()
  else .error (.unequalLengths r.position r.fields.size expected)

/-- The texts of some fields, of which the first has the given number. -/
def textsFrom (position : RecordPosition) (field : Nat) :
    List ByteArray → Except TableError (List String)
  | [] => .ok []
  | bytes :: rest =>
    match String.fromUTF8? bytes with
    | some text => (textsFrom position (field + 1) rest).map (text :: ·)
    | none => .error (.notText position field (Utf8.validLength bytes))

/-- The texts of all fields. -/
def texts (r : TableRecord) : Except TableError (List String) :=
  textsFrom r.position 0 r.fields.toList

/-- Reads one field of some texts. -/
def field {α : Type} (r : TableRecord) (texts : List String) (index : Nat)
    (read : List Char → Except NumeralError α) : Except TableError α :=
  match texts[index]? with
  | none => .error (.missingField r.position index)
  | some text => (read text.toList).mapError (.malformedField r.position index)

/-- The number of a user or item, which may be written in base sixteen after a mark. -/
def id : List Char → Except NumeralError UInt64
  | '0' :: 'x' :: digits => Numeral.word 16 digits
  | digits => Numeral.word 10 digits

/-- The rating at the start of a record. -/
def rating (r : TableRecord) : Except TableError Rating := do
  let texts ← r.texts
  let user ← r.field texts 0 id
  let item ← r.field texts 1 id
  let value ← r.field texts 2 Numeral.real
  return { user, item, value }

/-- The rating of a record in a table of a given width. -/
def ratingOfWidth (width : Nat) (r : TableRecord) : Except TableError Rating := do
  r.checkWidth width
  r.rating

end TableRecord

namespace RatingTable

/-- The ratings of some records of one table. The first one sets the width. -/
def ratings (records : List TableRecord) : Except TableError (List Rating) :=
  match records with
  | [] => .ok []
  | first :: _ => records.mapM (TableRecord.ratingOfWidth first.fields.size)

/-- Reads a table. At the end of the table its records are all there are. If the source fails
before, then the reading fails too, for this reason or because a record that has ended is bad. -/
def read (source : Source) : Except TableError PackedSnapshot :=
  let (splitter, ended) := Splitter.ofPortions source.portions.toList
  match if ended then none else source.failure with
  | none => (ratings splitter.records.toList).map PackedSnapshot.ofRatings
  | some reason => do
    let _ ← ratings splitter.finished.toList
    throw (.sourceFailed reason)

end RatingTable

end ItemNeighbors
