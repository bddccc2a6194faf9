import Mathlib

/-!
# The bits of scores

A floating point number is known by what it unpacks to: an infinity, the NaN, a zero with a sign, or
a sign with a whole number of powers of two. Every number has one such form only.

- `Score.unpack_inj`: numbers that unpack to the same are the same, bit by bit.
- `Score.IsCanonical`: the mantissas and exponents of finite numbers, and
  `Score.isCanonical_of_unpack`.
-/

namespace ItemNeighbors

namespace Score

open Float.Model (UnpackedFloat Format)
open Float.Model.UnpackedFloat

/-- Numbers that unpack to the same are the same: there is only one NaN. -/
theorem unpack_inj {x y : Float} (h : x.toModel.unpack = y.toModel.unpack) : x = y := by
  have hbits : x.toModel.toBits.toBitVec = y.toModel.toBits.toBitVec :=
    (unpack_inj_of_valid x.toModel.valid y.toModel.valid).mp h
  exact Float.toBits_inj.mp (UInt64.toBitVec_inj.mp hbits)

/-- The mantissa and the exponent of a finite number: at most 53 bits, and exactly that many
unless the exponent is the least one. -/
structure IsCanonical (mantissa : Nat) (exponent : Int) : Prop where
  pos : 0 < mantissa
  lt : mantissa < 2 ^ 53
  le_exponent : -1074 ≤ exponent
  full_or_least : 2 ^ 52 ≤ mantissa ∨ exponent = -1074

/-- With its implicit bit a mantissa is full. -/
theorem toNat_implicit (mantissa : BitVec 52) :
    (1#1 ++ mantissa).toNat = 2 ^ 52 + mantissa.toNat := by
  rw [BitVec.toNat_append, ← Nat.shiftLeft_add_eq_or_of_lt mantissa.isLt]
  rfl

/-- What bits of a finite number unpack to is canonical. -/
theorem isCanonical_of_unpack_bits {b : BitVec Format.binary64.numBits} {sign : Sign}
    {mantissa : Nat} {exponent : Int} {hpos : 0 < mantissa}
    (h : UnpackedFloat.unpack .binary64 b = .finite sign mantissa exponent hpos) :
    IsCanonical mantissa exponent := by
  have hmantissa : (unpackMantissa b).toNat < 2 ^ 52 := (unpackMantissa b).isLt
  rw [UnpackedFloat.unpack] at h
  split at h
  · split at h <;> cases h
  · split at h
    · rename_i hleast
      split at h
      · cases h
      · -- subnormal numbers
        have hzero : (unpackExponent b).toNat = 0 := congrArg BitVec.toNat hleast
        cases h
        have hexponent : ((unpackExponent b).toNat : Int) - (1023 + 52) + 1 = -1074 := by omega
        exact ⟨hpos, by omega, Int.le_of_eq hexponent.symm, .inr hexponent⟩
    · -- normal numbers
      rename_i hleast
      have hpos' : (unpackExponent b).toNat ≠ 0 := fun h => hleast (BitVec.eq_of_toNat_eq h)
      cases h
      have himplicit : (1#1 ++ unpackMantissa b).toNat = _ := toNat_implicit (unpackMantissa b)
      have hexponent : -1074 ≤ ((unpackExponent b).toNat : Int) - (1023 + 52) := by omega
      exact ⟨hpos, by omega, hexponent, .inl (by omega)⟩

/-- Finite numbers are canonical. -/
theorem isCanonical_of_unpack {x : Float} {sign : Sign} {mantissa : Nat} {exponent : Int}
    {hpos : 0 < mantissa} (h : x.toModel.unpack = .finite sign mantissa exponent hpos) :
    IsCanonical mantissa exponent :=
  isCanonical_of_unpack_bits h

end Score

end ItemNeighbors
