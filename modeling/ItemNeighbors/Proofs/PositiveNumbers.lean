import ItemNeighbors.Proofs.ScoreBits
import ItemNeighbors.Proofs.ScoreOrder

/-!
# Positive numbers

A number of things is positive as a floating point number, too, and it stays positive when a number
that is not negative is added: rounding never takes a number to zero that is at least the smallest
one. So nothing is divided by zero where such a sum is the divisor.

- `Score.IsPositive`, `Score.zero_lt_iff`: the numbers above zero, by what they unpack to.
- `Score.exists_roundWithAccuracy_eq`: rounding does not end at zero.
- `Score.zero_lt_add`: a positive number plus one that is not negative.
- `Score.toFloat_pos`: the number of things in a list that is not empty.
-/

namespace ItemNeighbors

namespace Score

open Float.Model (UnpackedFloat Format totalExponent)
open Float.Model.UnpackedFloat

/-- Infinity and the finite numbers above zero. -/
inductive IsPositive : UnpackedFloat → Prop
  | infinity : IsPositive (.infinity .positive)
  | finite {m : ℕ} {e : ℤ} {h : 0 < m} : IsPositive (.finite .positive m e h)

theorem rank_zero : rank 0.0 = toLex (0, toLex (0, 0)) := by
  decide

theorem zero_lt_iff {x : Float} : 0.0 < x ↔ IsPositive x.toModel.unpack := by
  have hnumber : (0.0 : Float).isNaN = false := by decide
  rw [lt_iff, rank_zero]
  show _ ∧ x.toModel.unpack.isNaN = false ∧
    toLex (0, toLex (0, 0)) < unpackedRank x.toModel.unpack ↔ _
  rw [and_iff_right hnumber]
  cases x.toModel.unpack with
  | notANumber => exact iff_of_false (fun h => nomatch h.1) nofun
  | zero s => exact iff_of_false (fun h => lt_irrefl _ h.2) nofun
  | infinity s =>
    cases s with
    | negative => exact iff_of_false (fun h => absurd h.2 (by decide)) nofun
    | positive => exact iff_of_true ⟨rfl, by decide⟩ .infinity
  | finite s m e h =>
    cases s with
    | negative => exact iff_of_false (by simp [unpackedRank, Prod.Lex.lt_iff]) nofun
    | positive => exact iff_of_true ⟨rfl, by simp [unpackedRank, Prod.Lex.lt_iff]⟩ .finite

theorem isPositive_or_zero_of_le {x : Float} (h : 0.0 ≤ x) :
    IsPositive x.toModel.unpack ∨ ∃ s, x.toModel.unpack = .zero s := by
  obtain ⟨hnumber, hx, hle⟩ := le_iff.mp h
  rcases lt_or_eq_of_le hle with hlt | heq
  · exact .inl (zero_lt_iff.mp (lt_iff.mpr ⟨hnumber, hx, hlt⟩))
  · rw [rank_zero, rank] at heq
    cases hu : x.toModel.unpack with
    | zero s => exact .inr ⟨s, rfl⟩
    | notANumber => rw [hu] at heq; cases heq
    | infinity s => rw [hu] at heq; cases s <;> cases heq
    | finite s m e h => rw [hu] at heq; cases s <;> cases heq

/-! ## Packing -/

theorem isPositive_unpack_packComponents {exponent : BitVec 11} {mantissa : BitVec 52}
    (hnumber : exponent = -1#11 → mantissa = 0#52) (hne : exponent = 0#11 → mantissa ≠ 0#52) :
    IsPositive (unpack .binary64 (packComponents .binary64 .positive exponent mantissa)) := by
  unfold unpack
  simp only [unpackExponent_packComponents, unpackMantissa_packComponents,
    unpackSign_packComponents, Sign.ofBitVec_toBitVec]
  by_cases htop : exponent = -1#11
  · rw [if_pos htop, if_pos (hnumber htop)]
    exact .infinity
  · rw [if_neg htop]
    by_cases hleast : exponent = 0#11
    · rw [if_pos hleast, dif_neg (hne hleast)]
      exact .finite
    · rw [if_neg hleast]
      exact .finite

theorem ofNat_ne_zero {k n : ℕ} (hpos : 0 < n) (hlt : n < 2 ^ k) : BitVec.ofNat k n ≠ 0#k := by
  intro h
  have hnat := congrArg BitVec.toNat h
  rw [BitVec.toNat_ofNat, BitVec.toNat_ofNat, Nat.mod_eq_of_lt hlt, Nat.zero_mod] at hnat
  omega

/-- A positive number that fits the format, or is too large for it, is packed as a positive one. -/
theorem isPositive_unpack_pack {m : ℕ} {e : ℤ} {h : 0 < m} (hm : m < 2 ^ 53) (he : -1074 ≤ e) :
    IsPositive (Float.Model.pack (.finite .positive m e h)).unpack := by
  show IsPositive (unpack .binary64 (pack .binary64 (.finite .positive m e h)))
  have hbias : e + Format.binary64.exponentBias + Format.binary64.mantissaBitsWithoutImplicit =
      e + 1075 := by
    show e + 1023 + 52 = _
    omega
  unfold pack
  simp only [hbias]
  split
  · exact isPositive_unpack_packComponents (fun _ => rfl) (by decide)
  · rename_i hfits
    have hfits : (e + 1075).toNat + 1 < 2 ^ 11 := Nat.lt_of_not_le hfits
    split
    · -- neither the exponent of infinity nor that of zero
      refine isPositive_unpack_packComponents (fun htop => ?_) fun hleast => ?_
      · have hnat := congrArg BitVec.toNat htop
        rw [BitVec.toNat_ofNat, Nat.mod_eq_of_lt (by omega)] at hnat
        have hones : (-1#11).toNat = 2047 := by decide
        omega
      · exact absurd hleast (ofNat_ne_zero (by omega) (by omega))
    · rename_i hshort
      have hlog : m.log2 < 52 := by
        have hlt : m.log2 < 53 := (Nat.log2_lt (by omega)).mpr hm
        have hne : m.log2 + 1 ≠ 53 := hshort
        omega
      have hlt : m < 2 ^ 52 := (Nat.log2_lt (by omega)).mp hlog
      exact isPositive_unpack_packComponents (fun htop => absurd htop (by decide))
        fun _ => ofNat_ne_zero h hlt

/-! ## Rounding -/

theorem mantissa_shiftRight (em : ExtendedMantissa) (k : ℕ) :
    (em >>> k).mantissa = em.mantissa / 2 ^ k := by
  induction k with
  | zero => simp [HShiftRight.hShiftRight, Nat.repeat]
  | succ k ih =>
    show (em >>> k).mantissa / 2 = _
    rw [ih, Nat.div_div_eq_div_mul, Nat.pow_succ]

theorem le_roundToNearestEven (m : ℕ) (accuracy : Accuracy) :
    m ≤ accuracy.roundToNearestEven m := by
  cases accuracy with
  | exact => exact le_refl m
  | inexact half => cases half <;> simp [Accuracy.roundToNearestEven]

theorem targetExponent_eq (t : ℤ) : Format.binary64.targetExponent t = max (t - 53) (-1074) := by
  simp only [Format.targetExponent]
  rfl

/-- A number that is at least the smallest one keeps a bit, and at most 53 of them, when its
mantissa is shifted for the format. -/
theorem bounds_of_shift {m : ℕ} {e : ℤ} (hpos : 0 < m) (hleast : -1074 ≤ m.log2 + e) :
    0 < m / 2 ^ (Format.binary64.targetExponent (totalExponent m e) - e).toNat ∧
      m / 2 ^ (Format.binary64.targetExponent (totalExponent m e) - e).toNat < 2 ^ 53 := by
  rw [targetExponent_eq, totalExponent]
  generalize hk : (max ((m.log2 : ℤ) + 1 + e - 53) (-1074) - e).toNat = k
  have hlow : 2 ^ m.log2 ≤ m := Nat.log2_self_le (by omega)
  have hhigh : m < 2 ^ (m.log2 + 1) := Nat.lt_log2_self
  constructor
  · refine Nat.div_pos (le_trans ?_ hlow) (Nat.two_pow_pos k)
    exact Nat.pow_le_pow_right (by decide) (by omega)
  · rw [Nat.div_lt_iff_lt_mul (Nat.two_pow_pos k), ← Nat.pow_add]
    exact lt_of_lt_of_le hhigh (Nat.pow_le_pow_right (by decide) (by omega))

/-- A number that is at least the smallest one is not rounded to zero. -/
theorem exists_roundWithAccuracy_eq (s : Sign) {m : ℕ} {e : ℤ} (hpos : 0 < m)
    (hleast : -1074 ≤ m.log2 + e) :
    ∃ m' e' h, roundWithAccuracy .binary64 s m e .exact = .finite s m' e' h ∧
      m' < 2 ^ 53 ∧ -1074 ≤ e' := by
  obtain ⟨hshifted, -⟩ := bounds_of_shift hpos hleast
  unfold roundWithAccuracy shiftToTargetExponent shiftToExponent
  dsimp only
  generalize hk : (Format.binary64.targetExponent (totalExponent m e) - e).toNat = k at *
  have hle : -1074 ≤ e + k := by
    rw [targetExponent_eq] at hk
    omega
  -- rounding goes up if it goes anywhere
  have hrounded : 0 <
      (ExtendedMantissa.ofMantissaAndAccuracy m .exact >>> k).roundedMantissa := by
    refine lt_of_lt_of_le ?_ (le_roundToNearestEven _ _)
    rwa [mantissa_shiftRight]
  generalize (ExtendedMantissa.ofMantissaAndAccuracy m .exact >>> k).roundedMantissa = m₁ at *
  obtain ⟨hpos', hlt'⟩ := bounds_of_shift (e := e + k) hrounded (by omega)
  simp only [mantissa_shiftRight, ExtendedMantissa.ofMantissaAndAccuracy]
  exact ⟨_, _, hpos', dif_neg (Nat.ne_of_gt hpos'), hlt', by omega⟩

/-- Rounding keeps a number positive if its exponent was fit before its mantissa was widened. -/
theorem isPositive_roundWithAccuracy {m : ℕ} {e : ℤ} (hpos : 0 < m) (he : -1074 ≤ e) (k : ℕ) :
    IsPositive (Float.Model.pack
      (roundWithAccuracy .binary64 .positive (m <<< k) (e - k) .exact)).unpack := by
  have hle : 2 ^ k ≤ m <<< k := by
    rw [Nat.shiftLeft_eq]
    exact Nat.le_mul_of_pos_left _ hpos
  have hwide : 0 < m <<< k := lt_of_lt_of_le (Nat.two_pow_pos k) hle
  have hlog : k ≤ (m <<< k).log2 := (Nat.le_log2 (by omega)).mpr hle
  obtain ⟨m', e', h, heq, hm', he'⟩ :=
    exists_roundWithAccuracy_eq .positive (e := e - k) hwide (by omega)
  rw [heq]
  exact isPositive_unpack_pack hm' he'

theorem isPositive_normalize {n : ℤ} {e : ℤ} (s : Sign) (hpos : 0 < n) (he : -1074 ≤ e) :
    IsPositive (Float.Model.pack (UnpackedFloat.normalize .binary64 n e s)).unpack := by
  have hgt : compare n 0 = .gt := compare_gt_iff_gt.mpr hpos
  have hround : UnpackedFloat.normalize .binary64 n e s =
      UnpackedFloat.round .binary64 .positive n.toNat e := by
    unfold UnpackedFloat.normalize
    rw [hgt]
  rw [hround]
  exact isPositive_roundWithAccuracy (by omega) he _

theorem isPositive_infinity : IsPositive (Float.Model.pack (.infinity .positive)).unpack :=
  isPositive_unpack_packComponents (fun _ => rfl) (by decide)

/-! ## Sums and counts -/

theorem shiftLeft_pos {m : ℕ} (hm : 0 < m) (k : ℕ) : 0 < m <<< k := by
  rw [Nat.shiftLeft_eq]
  exact Nat.mul_pos hm (Nat.two_pow_pos k)

/-- A positive number stays positive when something that is not negative is added. -/
theorem zero_lt_add {x y : Float} (hx : 0.0 < x) (hy : 0.0 ≤ y) : 0.0 < x + y := by
  have hx := zero_lt_iff.mp hx
  have hy := isPositive_or_zero_of_le hy
  rw [zero_lt_iff]
  show IsPositive (Float.Model.pack (add .binary64 x.toModel.unpack y.toModel.unpack)).unpack
  generalize hxu : x.toModel.unpack = u at hx
  generalize hyu : y.toModel.unpack = v at hy
  cases hx with
  | infinity =>
    rcases hy with hy | ⟨s, rfl⟩
    · cases hy <;> exact isPositive_infinity
    · exact isPositive_infinity
  | finite =>
    obtain ⟨hpos, hm, he, -⟩ := isCanonical_of_unpack hxu
    rcases hy with hy | ⟨s, rfl⟩
    · cases hy with
      | infinity => exact isPositive_infinity
      | finite =>
        obtain ⟨hpos', -, he', -⟩ := isCanonical_of_unpack hyu
        -- both mantissas are widened to the smaller exponent
        refine isPositive_normalize _ (Int.add_pos ?_ ?_) (le_min he he')
        · exact Int.natCast_pos.mpr (shiftLeft_pos hpos _)
        · exact Int.natCast_pos.mpr (shiftLeft_pos hpos' _)
    · exact isPositive_unpack_pack hm he

theorem unpack_one : (Float.ofBits 0x3FF0000000000000).toModel.unpack =
    .finite .positive (1 <<< 52) (-52) (by decide) := rfl

/-- Multiplying by one keeps a number positive. -/
theorem zero_lt_mul_one {x : Float} (hx : 0.0 < x) :
    0.0 < x * Float.ofBits 0x3FF0000000000000 := by
  have hx := zero_lt_iff.mp hx
  rw [zero_lt_iff]
  show IsPositive (Float.Model.pack (mul .binary64 x.toModel.unpack
    (Float.ofBits 0x3FF0000000000000).toModel.unpack)).unpack
  rw [unpack_one]
  generalize hxu : x.toModel.unpack = u at hx
  cases hx with
  | infinity => exact isPositive_infinity
  | @finite m e _ =>
    obtain ⟨hpos, -, he, -⟩ := isCanonical_of_unpack hxu
    have hwide := isPositive_roundWithAccuracy hpos he 52
    rw [Nat.shiftLeft_eq] at hwide
    exact hwide

/-- A natural number without a fraction is read by rounding. -/
theorem ofScientific_zero {n : ℕ} (hn : 0 < n) : ofScientific .binary64 n 0 =
    roundWithAccuracy .binary64 .positive (n <<< 53) (0 - (53 : ℕ)) .exact := by
  have hnotLarge : ¬ (0 : ℤ) > 2 ^ Format.binary64.exponentBits := by decide
  have hnotSmall : ¬ (0 : ℤ) < -((2 ^ Format.binary64.exponentBits : ℤ) + n.log2) := by
    show ¬ (0 : ℤ) < -(2048 + n.log2)
    omega
  have hbits : Format.binary64.mantissaBits = 53 := rfl
  unfold ofScientific
  rw [dif_neg (Nat.ne_of_gt hn), if_neg hnotLarge, if_neg hnotSmall, if_pos (le_refl 0)]
  simp only [mul, hbits, Int.toNat_zero, Nat.pow_zero, Nat.mul_one, Int.add_zero]
  rw [Int.zero_sub, show Sign.positive * Sign.positive = Sign.positive from rfl]

/-- A number of things is positive if there are any. -/
theorem toFloat_pos {n : ℕ} (hn : 0 < n) : 0.0 < n.toFloat := by
  show 0.0 < Float.ofScientific n false 0
  unfold Float.ofScientific
  split
  · -- a number that a mantissa has room for
    rename_i hsmall
    refine zero_lt_mul_one (zero_lt_iff.mpr (isPositive_normalize .positive ?_ (by decide)))
    rw [Int.natCast_pos]
    show 0 < n % 2 ^ 64
    rw [Nat.mod_eq_of_lt (by omega)]
    exact hn
  · rw [zero_lt_iff]
    show IsPositive (Float.Model.pack (ofScientific .binary64 n 0)).unpack
    rw [ofScientific_zero hn]
    exact isPositive_roundWithAccuracy hn (by decide) 53

end Score

end ItemNeighbors
