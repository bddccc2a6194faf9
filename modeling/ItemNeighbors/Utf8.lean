/-!
# UTF-8

- `Utf8.validLength`: how many bytes at the start of an array are text in UTF-8.
-/

namespace ItemNeighbors

namespace Utf8

/-- Goes on from a position as long as a character is encoded there. -/
def validLengthFrom (bytes : ByteArray) (i : Nat) : Nat :=
  match h : bytes.utf8DecodeChar? i with
  | some c =>
    have := ByteArray.le_size_of_utf8DecodeChar?_eq_some h
    have := c.utf8Size_pos
    validLengthFrom bytes (i + c.utf8Size)
  | none => i
termination_by bytes.size - i

/-- The length of the longest sequence of whole characters at the start of the bytes. -/
def validLength (bytes : ByteArray) : Nat := validLengthFrom bytes 0

end Utf8

end ItemNeighbors
