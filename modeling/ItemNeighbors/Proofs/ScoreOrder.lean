import Mathlib.Data.Int.Order.Basic
import Mathlib.Data.Prod.Lex
import ItemNeighbors.Neighbor

/-!
# The order of scores

Floating point numbers without the NaN are linearly ordered up to the sign of zero. `Score.rank`
maps them into a linear order, so that comparisons of scores become comparisons of ranks.

- `Score.lt_iff`, `Score.le_iff`, `Score.beq_iff`: the comparisons by rank.
- `Score.not_lt_of_beq_zero`: a zero exceeds no threshold that is not negative.
- `Neighbor.outranks_iff`: the order of neighbors by rank.
- `Score.mul_comm`: multiplication commutes, bit by bit.
-/

namespace ItemNeighbors

namespace Score

open Float.Model (UnpackedFloat)
open Float.Model.UnpackedFloat (Sign)

/-- Class, exponent and mantissa, compared in this order. -/
abbrev Rank := ℤ ×ₗ ℤ ×ₗ ℤ

/-- The place of an unpacked number. Negative ones have their exponent and mantissa reversed. -/
def unpackedRank : UnpackedFloat → Rank
  | .infinity .negative => toLex (-2, toLex (0, 0))
  | .finite .negative mantissa exponent _ => toLex (-1, toLex (-exponent, -mantissa))
  | .zero _ => toLex (0, toLex (0, 0))
  | .finite .positive mantissa exponent _ => toLex (1, toLex (exponent, mantissa))
  | .infinity .positive => toLex (2, toLex (0, 0))
  | .notANumber => toLex (3, toLex (0, 0))

/-- The place of a score among all scores; that of the NaN means nothing. -/
def rank (x : Float) : Rank := unpackedRank x.toModel.unpack

/-! ## Comparison by rank -/

theorem compare_neg (a b : ℤ) : compare (-a) (-b) = (compare a b).swap := by
  rcases lt_trichotomy a b with h | rfl | h
  · rw [compare_lt_iff_lt.mpr h, compare_gt_iff_gt.mpr (by omega)]
    rfl
  · simp
  · rw [compare_gt_iff_gt.mpr h, compare_lt_iff_lt.mpr (by omega)]
    rfl

theorem compare_natCast (a b : ℕ) : compare (a : ℤ) (b : ℤ) = compare a b := by
  rcases lt_trichotomy a b with h | rfl | h
  · rw [compare_lt_iff_lt.mpr h, compare_lt_iff_lt.mpr (by omega)]
  · simp
  · rw [compare_gt_iff_gt.mpr h, compare_gt_iff_gt.mpr (by omega)]

/-- Ranks of one class compare by exponent, then by mantissa. -/
theorem compare_of_class (c e m e' m' : ℤ) :
    compare (toLex (c, toLex (e, m))) (toLex (c, toLex (e', m'))) =
      (compare e e').then (compare m m') := by
  simp [Prod.Lex.compare_def, compareLex, compareOn]

/-- Unpacked numbers compare as their ranks do. -/
theorem compare_eq_some {a b : UnpackedFloat} (ha : a.isNaN = false) (hb : b.isNaN = false) :
    a.compare b = some (compare (unpackedRank a) (unpackedRank b)) := by
  cases a with
  | notANumber => cases ha
  | infinity s =>
    cases b with
    | notANumber => cases hb
    | infinity s' => cases s <;> cases s' <;> rfl
    | zero s' => cases s <;> rfl
    | finite s' => cases s <;> cases s' <;> rfl
  | zero s =>
    cases b with
    | notANumber => cases hb
    | infinity s' => cases s' <;> rfl
    | zero s' => rfl
    | finite s' => cases s' <;> rfl
  | finite s m e h =>
    cases b with
    | notANumber => cases hb
    | infinity s' => cases s <;> cases s' <;> rfl
    | zero s' => cases s <;> rfl
    | finite s' m' e' h' =>
      cases s with
      | negative =>
        cases s' with
        | negative =>
          show some ((compare e e').then (compare m m')).swap =
            some (compare (toLex (-1, toLex (-e, -(m : ℤ)))) (toLex (-1, toLex (-e', -(m' : ℤ)))))
          rw [compare_of_class, compare_neg, compare_neg, compare_natCast, Ordering.swap_then]
        | positive => rfl
      | positive =>
        cases s' with
        | negative => rfl
        | positive =>
          show some ((compare e e').then (compare m m')) =
            some (compare (toLex (1, toLex (e, (m : ℤ)))) (toLex (1, toLex (e', (m' : ℤ)))))
          rw [compare_of_class, compare_natCast]

/-- The NaN compares with nothing. -/
theorem compare_eq_none {a b : UnpackedFloat} (h : a.isNaN = true ∨ b.isNaN = true) :
    a.compare b = none := by
  rcases h with h | h
  · cases a with
    | notANumber => cases b <;> rfl
    | infinity => cases h
    | zero => cases h
    | finite => cases h
  · cases b with
    | notANumber => cases a <;> rfl
    | infinity => cases h
    | zero => cases h
    | finite => cases h

/-- How two floating point numbers compare. -/
theorem model_compare (x y : Float) :
    x.toModel.compare y.toModel =
      if x.isNaN || y.isNaN then none else some (compare (rank x) (rank y)) := by
  split
  · rename_i h
    exact compare_eq_none (Bool.or_eq_true_iff.mp h)
  · rename_i h
    simp only [Bool.or_eq_true, not_or, Bool.not_eq_true] at h
    exact compare_eq_some h.1 h.2

theorem lt_iff {x y : Float} :
    x < y ↔ x.isNaN = false ∧ y.isNaN = false ∧ rank x < rank y := by
  have hmodel : x < y ↔ (x.toModel.compare y.toModel == some .lt) = true := decide_eq_true_iff
  rw [hmodel, model_compare]
  cases x.isNaN <;> cases y.isNaN <;> simp [compare_lt_iff_lt]

theorem le_iff {x y : Float} :
    x ≤ y ↔ x.isNaN = false ∧ y.isNaN = false ∧ rank x ≤ rank y := by
  have hmodel : x ≤ y ↔ (x.toModel.compare y.toModel).any (·.isLE) = true := decide_eq_true_iff
  rw [hmodel, model_compare]
  cases x.isNaN <;> cases y.isNaN <;> simp [← compare_le_iff_le, Ordering.isLE_iff_ne_gt]

theorem beq_iff {x y : Float} :
    (x == y) = true ↔ x.isNaN = false ∧ y.isNaN = false ∧ rank x = rank y := by
  show ((x.toModel.compare y.toModel == some .eq) = true) ↔ _
  rw [model_compare]
  cases x.isNaN <;> cases y.isNaN <;> simp [compare_eq_iff_eq]

/-- What exceeds something is a number. -/
theorem isNaN_eq_false_of_lt {x y : Float} (h : x < y) : y.isNaN = false :=
  (lt_iff.mp h).2.1

/-- A zero of either sign exceeds no threshold that is not negative. -/
theorem not_lt_of_beq_zero {t z : Float} (ht : ¬ t < 0.0) (hz : (z == 0.0) = true) : ¬ t < z := by
  rw [lt_iff] at ht ⊢
  obtain ⟨hzn, h0, hrank⟩ := beq_iff.mp hz
  rw [hrank]
  exact fun ⟨h₁, _, h₃⟩ => ht ⟨h₁, h0, h₃⟩

/-! ## Multiplication -/

theorem sign_mul_comm (s t : Sign) : s * t = t * s := by
  cases s <;> cases t <;> rfl

theorem unpacked_mul_comm (spec : Float.Model.Format) (a b : UnpackedFloat) :
    a.mul spec b = b.mul spec a := by
  cases a with
  | notANumber => cases b <;> rfl
  | infinity s =>
    cases b with
    | notANumber => rfl
    | infinity s' => exact congrArg UnpackedFloat.infinity (sign_mul_comm s s')
    | zero => rfl
    | finite s' => exact congrArg UnpackedFloat.infinity (sign_mul_comm s s')
  | zero s =>
    cases b with
    | notANumber => rfl
    | infinity => rfl
    | zero s' => exact congrArg UnpackedFloat.zero (sign_mul_comm s s')
    | finite s' => exact congrArg UnpackedFloat.zero (sign_mul_comm s s')
  | finite s m e h =>
    cases b with
    | notANumber => rfl
    | infinity s' => exact congrArg UnpackedFloat.infinity (sign_mul_comm s s')
    | zero s' => exact congrArg UnpackedFloat.zero (sign_mul_comm s s')
    | finite s' m' e' h' =>
      show UnpackedFloat.roundWithAccuracy spec (s * s') (m * m') (e + e') .exact =
        UnpackedFloat.roundWithAccuracy spec (s' * s) (m' * m) (e' + e) .exact
      rw [sign_mul_comm, Nat.mul_comm, Int.add_comm]

/-- The product does not depend on the order of its factors, not even in the last bit. -/
theorem mul_comm (x y : Float) : x * y = y * x :=
  congrArg (fun u => Float.ofModel (Float.Model.pack u)) (unpacked_mul_comm _ _ _)

end Score

namespace Neighbor

/-- The neighbor with the higher rank outranks the other, if both scores are numbers. -/
theorem outranks_iff {a b : Neighbor} (ha : a.score.isNaN = false) (hb : b.score.isNaN = false) :
    a.outranks b = true ↔ Score.rank b.score < Score.rank a.score := by
  rw [outranks, decide_eq_true_iff, Score.lt_iff]
  constructor
  · exact fun h => h.2.2
  · exact fun h => ⟨hb, ha, h⟩

end Neighbor

end ItemNeighbors
