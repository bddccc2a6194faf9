/-!
# Tables of fields

A table is a sequence of bytes. Tabs separate the fields of a record; a line feed or a carriage
return ends it. A field that begins with a quote reaches to the next lone quote: inside of it a
doubled quote stands for one, and tabs and line ends are data. What follows the closing quote is
plain data again. Line ends where no record has begun are blank lines and count for nothing.

The bytes are taken in one after the other, so what is known after some of them does not depend on
those that follow. They come in portions. A byte order mark is looked for at the start of the first
portion only, and a portion without data is taken for the end of the table.

- `OpenRecord.step`: takes one byte into a record.
- `Splitter.feed`: takes one byte of a table in.
- `Splitter.ofPortions`: takes a table in as it is handed out.
- `Splitter.ofBytes`: the records of a table, the finished ones and the one left open at its end.
-/

namespace ItemNeighbors

/-- A place between two bytes. -/
structure Place where
  /-- The line, counted from one. -/
  line : Nat
  /-- How many bytes come before. -/
  byte : Nat
deriving DecidableEq

namespace Place

/-- The place before the first byte. -/
def start : Place := ⟨1, 0⟩

/-- The place after one more byte. Only line feeds begin a new line. -/
def advance (p : Place) (b : UInt8) : Place where
  line := if b = 10 then p.line + 1 else p.line
  byte := p.byte + 1

end Place

/-- The bytes at the start of a text that say how it is encoded. -/
def byteOrderMark : List UInt8 := [0xEF, 0xBB, 0xBF]

/-- Tells which bytes end a record. -/
def isRecordEnd (b : UInt8) : Bool := b == 10 || b == 13

/-! ## Records -/

/-- What has been seen of a field. -/
inductive FieldState where
  /-- Nothing yet. -/
  | start
  /-- Plain data. -/
  | plain
  /-- The inside of quotes. -/
  | quoted
  /-- A quote on the inside, which closes the field unless another quote follows. -/
  | quoteSeen
deriving DecidableEq

/-- A record that goes on: the fields that are complete, and the data of the last one. -/
structure OpenRecord where
  fields : Array ByteArray
  field : ByteArray
  state : FieldState

/-- What becomes of a record when a byte is taken in. -/
inductive RecordStep where
  /-- It goes on. -/
  | more (record : OpenRecord)
  /-- It ends with these fields. -/
  | done (fields : Array ByteArray)

namespace OpenRecord

/-- The record before its first byte. -/
def start : OpenRecord := ⟨#[], .empty, .start⟩

/-- The fields if nothing more comes. -/
def close (r : OpenRecord) : Array ByteArray := r.fields.push r.field

/-- Takes a byte in where no quote is open: a tab ends the field, a line end the record, and all
else is data. -/
def stepPlain (r : OpenRecord) (b : UInt8) : RecordStep :=
  if b = 9 then .more ⟨r.fields.push r.field, .empty, .start⟩
  else if isRecordEnd b then .done r.close
  else .more ⟨r.fields, r.field.push b, .plain⟩

/-- Takes one byte in. -/
def step (r : OpenRecord) (b : UInt8) : RecordStep :=
  match r.state with
  | .start => if b = 34 then .more ⟨r.fields, r.field, .quoted⟩ else r.stepPlain b
  | .plain => r.stepPlain b
  | .quoted =>
    if b = 34 then .more ⟨r.fields, r.field, .quoteSeen⟩
    else .more ⟨r.fields, r.field.push b, .quoted⟩
  | .quoteSeen => if b = 34 then .more ⟨r.fields, r.field.push b, .quoted⟩ else r.stepPlain b

end OpenRecord

/-! ## Tables -/

/-- Where a record stands: its number, counted from zero, and the end of the record before it. -/
structure RecordPosition where
  ordinal : Nat
  place : Place
deriving DecidableEq

/-- A record and its position. -/
structure TableRecord where
  position : RecordPosition
  fields : Array ByteArray

/-- A table of which some bytes were taken in. -/
structure Splitter where
  /-- The records that have ended. -/
  finished : Array TableRecord
  /-- How far the table was taken in. -/
  place : Place
  /-- Where the last finished record ended. -/
  origin : Place
  /-- The record that has begun and not ended. -/
  current : Option OpenRecord

namespace Splitter

/-- The position of the record that ends next. -/
def position (s : Splitter) : RecordPosition := ⟨s.finished.size, s.origin⟩

/-- Follows a step of the current record, which reached a place. -/
def follow (s : Splitter) (place : Place) : RecordStep → Splitter
  | .more record => { s with place, current := some record }
  | .done fields =>
    { finished := s.finished.push ⟨s.position, fields⟩, place, origin := place, current := none }

/-- Takes one byte in. -/
def feed (s : Splitter) (b : UInt8) : Splitter :=
  let place := s.place.advance b
  match s.current with
  | none => if isRecordEnd b then { s with place } else s.follow place (OpenRecord.start.step b)
  | some record => s.follow place (record.step b)

/-- The table before its first byte, of which a number of bytes at the start is no data. -/
def start (skipped : Nat) : Splitter where
  finished := #[]
  place := { Place.start with byte := skipped }
  origin := .start
  current := none

/-- The table before its first byte, and the data of its first portion: a byte order mark at the
start is none. -/
def opening : List UInt8 → Splitter × List UInt8
  | 0xEF :: 0xBB :: 0xBF :: data => (start 3, data)
  | data => (start 0, data)

/-- Takes a table in that is handed out at once. -/
def ofBytes (bytes : List UInt8) : Splitter :=
  let (s, data) := opening bytes
  data.foldl feed s

/-- Takes in the data of some portions, and tells whether this was the end of the table: whatever is
handed out behind a portion without data is not asked for. -/
def takeIn (s : Splitter) : List (List UInt8) → Splitter × Bool
  | [] => (s, false)
  | data :: rest => if data.isEmpty then (s, true) else (data.foldl feed s).takeIn rest

/-- Takes a table in that is handed out in portions. -/
def ofPortions : List (List UInt8) → Splitter × Bool
  | [] => (start 0, false)
  | first :: rest =>
    let (s, data) := opening first
    s.takeIn (data :: rest)

/-- All records, where the end of the table ends the last one. -/
def records (s : Splitter) : Array TableRecord :=
  match s.current with
  | some record => s.finished.push ⟨s.position, record.close⟩
  | none => s.finished

end Splitter

end ItemNeighbors
