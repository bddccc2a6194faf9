import ItemNeighbors.Proofs.TableContents

/-!
# Tables in portions

How a table is cut into portions makes no difference, unless a byte order mark at its start is cut
off. If the mark comes in pieces, it is not recognised and taken for data. If it comes alone,
nothing is left of the first portion, which is taken for the end of the table.

- `Portions.first`, `Portions.bytes`: what comes first, and all that comes.
- `Portions.splitsMark`: whether a mark comes in pieces.
- `Splitter.ofPortions_of_first_eq`, `Splitter.ofPortions_of_first_ne`: a table in portions.
- `RatingTable.read_of_first_ne`: what is read from it.
-/

namespace ItemNeighbors

namespace Portions

/-- The first portion, nothing if there is none. -/
def first (p : Portions) : List UInt8 := p.toList.head?.getD []

/-- All bytes that are handed out. -/
def bytes (p : Portions) : List UInt8 := p.toList.flatten

/-- Whether the bytes begin with a byte order mark of which the first portion is only a piece. -/
def splitsMark (p : Portions) : Bool :=
  decide (byteOrderMark <+: p.bytes) && !decide (byteOrderMark <+: p.first)

end Portions

namespace Splitter

variable {s : Splitter} {p : Portions}

/-- Takes a table in, whose byte order mark is data if it is split. -/
def ofTable (split : Bool) (bytes : List UInt8) : Splitter :=
  if split then bytes.foldl feed (start 0) else ofBytes bytes

/-- Portions with data are taken in as if they came at once. -/
theorem takeIn_of_ne_nil {portions : List (List UInt8)} (h : ∀ data ∈ portions, data ≠ []) :
    s.takeIn portions = (portions.flatten.foldl feed s, false) := by
  induction portions generalizing s with
  | nil => rfl
  | cons data rest ih =>
    obtain ⟨hdata, hrest⟩ := List.forall_mem_cons.mp h
    rw [takeIn, if_neg (by simpa using hdata), ih hrest, List.flatten_cons, List.foldl_append]

/-- A byte order mark that comes alone is the end of the table, whatever follows. -/
theorem ofPortions_of_first_eq (h : p.first = byteOrderMark) :
    ofPortions p.toList = (start 3, true) := by
  unfold Portions.first at h
  cases hportions : p.toList with
  | nil =>
    rw [hportions] at h
    cases h
  | cons first rest =>
    rw [hportions] at h
    obtain rfl : first = byteOrderMark := h
    rfl

/-- Otherwise all bytes are taken in. -/
theorem ofPortions_of_first_ne (h : p.first ≠ byteOrderMark) :
    ofPortions p.toList = (ofTable p.splitsMark p.bytes, false) := by
  have hne_nil := p.ne_nil
  unfold Portions.splitsMark Portions.bytes
  unfold Portions.first at h ⊢
  generalize p.toList = portions at h hne_nil ⊢
  cases portions with
  | nil => rfl
  | cons first rest =>
    obtain ⟨hfirst, hrest⟩ := List.forall_mem_cons.mp hne_nil
    show (opening first).1.takeIn ((opening first).2 :: rest) =
      (ofTable
        (decide (byteOrderMark <+: first ++ rest.flatten) && !decide (byteOrderMark <+: first))
        (first ++ rest.flatten), false)
    by_cases hmark : byteOrderMark <+: first
    · obtain ⟨data, rfl⟩ := hmark
      have hdata : data ≠ [] := by
        rintro rfl
        exact h rfl
      show (start 3).takeIn (data :: rest) = _
      rw [takeIn_of_ne_nil (List.forall_mem_cons.mpr ⟨hdata, hrest⟩), List.append_assoc]
      simp [ofTable, ofBytes_mark]
    · rw [opening_of_no_mark hmark, takeIn_of_ne_nil hne_nil]
      by_cases hwhole : byteOrderMark <+: first ++ rest.flatten
      · simp [ofTable, hmark, hwhole]
      · simp [ofTable, hwhole, ofBytes_of_no_mark hwhole]

end Splitter

namespace RatingTable

open Splitter

variable {source : Source}

/-- Nothing is read from a source that begins with a byte order mark alone, whether or not more
follows. -/
theorem read_of_first_eq (h : source.portions.first = byteOrderMark) :
    read source = .ok (PackedSnapshot.ofRatings []) := by
  unfold read
  rw [ofPortions_of_first_eq h]
  rfl

/-- From any other source all is read, up to its end or its failure. -/
theorem read_of_first_ne (h : source.portions.first ≠ byteOrderMark) :
    read source =
      let table := ofTable source.portions.splitsMark source.portions.bytes
      match source.failure with
      | none => (ratings table.records.toList).map PackedSnapshot.ofRatings
      | some reason => ratings table.finished.toList >>= fun _ => throw (.sourceFailed reason) := by
  unfold read
  rw [ofPortions_of_first_ne h]
  rfl

end RatingTable

end ItemNeighbors
