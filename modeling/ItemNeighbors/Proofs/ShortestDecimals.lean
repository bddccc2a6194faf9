import ItemNeighbors.Decimal.Shortest
import ItemNeighbors.Proofs.ScoreBits

/-!
# What shortest decimals say

The shortest decimal of a number lies among the reals that round to this number, and no real rounds
to two numbers. So the value of the decimal tells the numbers apart.

- `Decimal.value`: the number that a decimal is.
- `Decimal.exists_contains_shortest`: a shortest decimal lies in the interval of its number.
- `RoundingInterval.eq_of_contains`: the intervals of different numbers have no real in common.
- `Decimal.eq_of_value_shortest`: a shortest decimal determines its number.
-/

namespace ItemNeighbors

namespace Decimal

/-- The number that a decimal is. -/
def value (d : Decimal) : ℚ := d.digits * 10 ^ d.exponent

/-- Zeros at the end of the digits say nothing. -/
theorem value_trim (d : Decimal) : d.trim.value = d.value := by
  induction d using trim.induct with
  | case1 d h ih =>
    rw [trim, dif_pos h, ih]
    have hdigits : d.digits = d.digits / 10 * 10 := by omega
    have hcast : (d.digits : ℚ) = (d.digits / 10 : ℕ) * 10 := by exact_mod_cast hdigits
    show ((d.digits / 10 : ℕ) : ℚ) * 10 ^ (d.exponent + 1) = d.digits * 10 ^ d.exponent
    rw [hcast, zpow_add_one₀ (by norm_num)]
    ring
  | case2 d h => rw [trim, dif_neg h]

end Decimal

namespace RoundingInterval

open Score (IsCanonical)

variable {r : RoundingInterval} {n mantissa mantissa' : ℕ} {exponent exponent' : ℤ}

/-- The unit that the ends of intervals are counted in. -/
def unit : ℚ := 2 ^ (-1076 : ℤ) * 10 ^ (-341 : ℤ)

theorem unit_pos : 0 < unit := by
  unfold unit
  positivity

theorem contains_iff :
    r.contains n = true ↔
      r.lower ≤ n ∧ n ≤ r.upper ∧ (r.closed = false → r.lower < n ∧ n < r.upper) := by
  unfold contains
  cases r.closed with
  | true => simp
  | false => simp; omega

theorem pow_mul_zpow_neg {base : ℚ} (hbase : base ≠ 0) (k : ℕ) :
    base ^ k * base ^ (-k : ℤ) = 1 := by
  rw [zpow_neg, zpow_natCast]
  exact mul_inv_cancel₀ (pow_ne_zero k hbase)

/-- A multiple of a power of ten in units that are powers of two and ten themselves. -/
theorem value_of_powers (digits place twos tens : ℕ) :
    Decimal.value ⟨digits, (place : ℤ) - tens⟩ =
      (digits * (Nat.pow 10 place * Nat.pow 2 twos) : ℕ) *
        (2 ^ (-twos : ℤ) * 10 ^ (-tens : ℤ)) := by
  have htwo : (2 : ℚ) ^ twos * 2 ^ (-twos : ℤ) = 1 := pow_mul_zpow_neg (by norm_num) twos
  have hten : (10 : ℚ) ^ ((place : ℤ) - tens) = 10 ^ place * 10 ^ (-tens : ℤ) := by
    rw [sub_eq_add_neg, zpow_add₀ (by norm_num), zpow_natCast]
  rw [Nat.pow_eq, Nat.pow_eq, Decimal.value, hten]
  push_cast
  linear_combination (-(digits : ℚ) * 10 ^ place * 10 ^ (-tens : ℤ)) * htwo

/-- A grid point of the search is a whole number of units. -/
theorem value_of_grid (digits place : ℕ) :
    Decimal.value ⟨digits, (place : ℤ) - 341⟩ =
      (digits * (Nat.pow 10 place * Nat.pow 2 1076) : ℕ) * unit :=
  value_of_powers digits place 1076 341

/-- What the search finds lies in the interval. -/
theorem exists_contains_nearestOnGrid? {place : ℕ} {d : Decimal}
    (h : r.nearestOnGrid? place = some d) : ∃ n : ℕ, r.contains n = true ∧ d.value = n * unit := by
  rw [nearestOnGrid?] at h
  split at h
  · cases h
  · rename_i hbelow _
    obtain rfl := Option.some.inj h
    exact ⟨_, hbelow, value_of_grid _ _⟩
  · rename_i _ habove
    obtain rfl := Option.some.inj h
    exact ⟨_, habove, value_of_grid _ _⟩
  · rename_i hbelow habove
    dsimp only at h
    split at h
    · obtain rfl := Option.some.inj h
      exact ⟨_, hbelow, value_of_grid _ _⟩
    · obtain rfl := Option.some.inj h
      exact ⟨_, habove, value_of_grid _ _⟩

/-! ## Intervals of numbers -/

/-- How many units a quarter of the distance between numbers of an exponent has. -/
def quarter (exponent : ℤ) : ℕ := Nat.pow 2 (exponent + 1074).toNat * Nat.pow 10 341

theorem quarter_pos (exponent : ℤ) : 0 < quarter exponent :=
  Nat.mul_pos (Nat.pow_pos (by decide)) (Nat.pow_pos (by decide))

theorem quarter_add (h : -1074 ≤ exponent) (k : ℕ) :
    quarter (exponent + k) = 2 ^ k * quarter exponent := by
  have hshift : (exponent + k + 1074).toNat = k + (exponent + 1074).toNat := by omega
  rw [quarter, quarter, hshift, ← Nat.mul_assoc]
  exact congrArg (· * _) (Nat.pow_add 2 k _)

/-- How far an interval reaches down, in quarters: half as far at the least full mantissa. -/
def gap (mantissa : ℕ) (exponent : ℤ) : ℕ :=
  if mantissa = Nat.pow 2 52 ∧ -1074 < exponent then 1 else 2

theorem gap_bounds (mantissa : ℕ) (exponent : ℤ) :
    1 ≤ gap mantissa exponent ∧ gap mantissa exponent ≤ 2 := by
  unfold gap
  split <;> omega

/-- An interval in quarters. -/
theorem around_eq (mantissa : ℕ) (exponent : ℤ) :
    around mantissa exponent =
      { lower := (4 * mantissa - gap mantissa exponent) * quarter exponent
        middle := 4 * mantissa * quarter exponent
        upper := (4 * mantissa + 2) * quarter exponent
        closed := mantissa % 2 = 0 } := rfl

/-- Where exponents differ, the greater number is so much greater that its interval is, too. -/
theorem le_of_exponent_lt (h : IsCanonical mantissa exponent)
    (h' : IsCanonical mantissa' exponent') (hlt : exponent < exponent') (k : ℕ) :
    4 * mantissa + 2 ≤ 2 ^ (k + 1) * (4 * mantissa' - gap mantissa' exponent') ∧
      (4 * mantissa + 2 = 2 ^ (k + 1) * (4 * mantissa' - gap mantissa' exponent') →
        mantissa % 2 ≠ 0) := by
  have hleast := h.le_exponent
  have hmantissa := h.lt
  have hfull : 2 ^ 52 ≤ mantissa' := h'.full_or_least.resolve_right (by omega)
  have hquarters : 2 ^ 54 - 1 ≤ 4 * mantissa' - gap mantissa' exponent' := by
    unfold gap
    split
    · omega
    · rename_i hne
      have hne' : mantissa' ≠ Nat.pow 2 52 := fun heq => hne ⟨heq, by omega⟩
      have hpow : Nat.pow 2 52 = 2 ^ 52 := rfl
      omega
  have htwice : 2 * (4 * mantissa' - gap mantissa' exponent') ≤
      2 ^ (k + 1) * (4 * mantissa' - gap mantissa' exponent') :=
    Nat.mul_le_mul_right _ (Nat.le_self_pow (by omega) 2)
  omega

/-- Of two numbers the greater one has its interval above that of the other one. If the intervals
touch, one of them lacks its ends. -/
theorem upper_le_lower (h : IsCanonical mantissa exponent) (h' : IsCanonical mantissa' exponent')
    (hlt : exponent < exponent' ∨ exponent = exponent' ∧ mantissa < mantissa') :
    (around mantissa exponent).upper ≤ (around mantissa' exponent').lower ∧
      ((around mantissa exponent).upper = (around mantissa' exponent').lower →
        ¬ ((around mantissa exponent).closed = true ∧
          (around mantissa' exponent').closed = true)) := by
  have hpos := quarter_pos exponent
  have hgap := gap_bounds mantissa' exponent'
  rw [around_eq, around_eq]
  simp only [decide_eq_true_eq]
  obtain hexponent | ⟨rfl, hmantissa⟩ := hlt
  · obtain ⟨k, hk⟩ : ∃ k : ℕ, exponent' = exponent + (k + 1 : ℕ) :=
      ⟨(exponent' - exponent - 1).toNat, by omega⟩
    obtain ⟨hle, hodd⟩ := le_of_exponent_lt h h' hexponent k
    have hlower : (4 * mantissa' - gap mantissa' exponent') * quarter exponent' =
        2 ^ (k + 1) * (4 * mantissa' - gap mantissa' exponent') * quarter exponent := by
      rw [hk, quarter_add h.le_exponent]
      ring
    rw [hlower]
    exact ⟨Nat.mul_le_mul_right _ hle, fun heq hboth =>
      hodd (Nat.eq_of_mul_eq_mul_right hpos heq) hboth.1⟩
  · refine ⟨Nat.mul_le_mul_right _ (by omega), fun heq hboth => ?_⟩
    have hquarters := Nat.eq_of_mul_eq_mul_right hpos heq
    omega

/-- No whole number of units lies in the intervals of two numbers. -/
theorem eq_of_contains (h : IsCanonical mantissa exponent) (h' : IsCanonical mantissa' exponent')
    (hn : (around mantissa exponent).contains n = true)
    (hn' : (around mantissa' exponent').contains n = true) :
    mantissa = mantissa' ∧ exponent = exponent' := by
  have hordered {m m' : ℕ} {e e' : ℤ} (h : IsCanonical m e) (h' : IsCanonical m' e')
      (hn : (around m e).contains n = true) (hn' : (around m' e').contains n = true) :
      ¬ (e < e' ∨ e = e' ∧ m < m') := by
    intro hlt
    obtain ⟨hle, htouch⟩ := upper_le_lower h h' hlt
    obtain ⟨-, hupper, hopen⟩ := contains_iff.mp hn
    obtain ⟨hlower, -, hopen'⟩ := contains_iff.mp hn'
    refine htouch (by omega) ⟨?_, ?_⟩
    · exact eq_true_of_ne_false fun hfalse => by
        have := (hopen hfalse).2
        omega
    · exact eq_true_of_ne_false fun hfalse => by
        have := (hopen' hfalse).1
        omega
  have hnot := hordered h h' hn hn'
  have hnot' := hordered h' h hn' hn
  omega

/-- The middle of an interval in units, these being powers of two and ten. -/
theorem middle_of_powers (mantissa k twos tens : ℕ) (h : k + 2 = twos + exponent) :
    ((4 * mantissa * (Nat.pow 2 k * Nat.pow 10 tens) : ℕ) : ℚ) *
        (2 ^ (-twos : ℤ) * 10 ^ (-tens : ℤ)) = mantissa * 2 ^ exponent := by
  have hten : (10 : ℚ) ^ tens * 10 ^ (-tens : ℤ) = 1 := pow_mul_zpow_neg (by norm_num) tens
  have htwo : (4 : ℚ) * 2 ^ k * 2 ^ (-twos : ℤ) = 2 ^ exponent := by
    have hexponent : exponent = 2 + k + -twos := by omega
    rw [hexponent, zpow_add₀ (by norm_num), zpow_add₀ (by norm_num), zpow_natCast]
    norm_num
  rw [Nat.pow_eq, Nat.pow_eq, ← htwo]
  push_cast
  linear_combination (4 * mantissa * 2 ^ k * 2 ^ (-twos : ℤ) : ℚ) * hten

/-- The middle of an interval is its number. -/
theorem middle_mul_unit (mantissa : ℕ) (h : -1074 ≤ exponent) :
    ((around mantissa exponent).middle : ℚ) * unit = mantissa * 2 ^ exponent :=
  middle_of_powers mantissa (exponent + 1074).toNat 1076 341 (by omega)

/-- A number lies in its own interval. -/
theorem contains_middle (hpos : 0 < mantissa) :
    (around mantissa exponent).contains (around mantissa exponent).middle = true := by
  have hquarter := quarter_pos exponent
  have hgap := gap_bounds mantissa exponent
  rw [contains_iff, around_eq]
  have hlower : (4 * mantissa - gap mantissa exponent) * quarter exponent <
      4 * mantissa * quarter exponent := Nat.mul_lt_mul_of_pos_right (by omega) hquarter
  have hupper : 4 * mantissa * quarter exponent < (4 * mantissa + 2) * quarter exponent :=
    Nat.mul_lt_mul_of_pos_right (by omega) hquarter
  exact ⟨Nat.le_of_lt hlower, Nat.le_of_lt hupper, fun _ => ⟨hlower, hupper⟩⟩

/-- All that rounds to a positive number is positive. -/
theorem pos_of_contains (hpos : 0 < mantissa) (h : (around mantissa exponent).contains n = true) :
    0 < n := by
  have hgap := gap_bounds mantissa exponent
  have hlower : 0 < (4 * mantissa - gap mantissa exponent) * quarter exponent :=
    Nat.mul_pos (by omega) (quarter_pos exponent)
  exact Nat.lt_of_lt_of_le hlower (contains_iff.mp h).1

end RoundingInterval

namespace Decimal

open RoundingInterval
open Score (IsCanonical)

variable {mantissa mantissa' : ℕ} {exponent exponent' : ℤ}

/-- The exact decimal of a number has its value. -/
theorem value_exact (mantissa : ℕ) (exponent : ℤ) :
    (exact mantissa exponent).value = mantissa * 2 ^ exponent := by
  unfold exact
  split
  · rename_i hexponent
    obtain ⟨k, rfl⟩ := Int.eq_ofNat_of_zero_le hexponent
    show ((mantissa * 2 ^ k : ℕ) : ℚ) * 10 ^ (0 : ℤ) = mantissa * 2 ^ (k : ℤ)
    rw [zpow_zero, mul_one, zpow_natCast]
    push_cast
    rfl
  · rename_i hexponent
    obtain ⟨k, rfl⟩ : ∃ k : ℕ, exponent = -k := ⟨(-exponent).toNat, by omega⟩
    have htoNat : (- -(k : ℤ)).toNat = k := by omega
    have hfive : (5 : ℚ) ^ k * 5 ^ (-k : ℤ) = 1 := pow_mul_zpow_neg (by norm_num) k
    have hten : (10 : ℚ) ^ (-k : ℤ) = 2 ^ (-k : ℤ) * 5 ^ (-k : ℤ) := by
      rw [← mul_zpow]
      norm_num
    show ((mantissa * 5 ^ (- -(k : ℤ)).toNat : ℕ) : ℚ) * 10 ^ (-k : ℤ) = mantissa * 2 ^ (-k : ℤ)
    rw [htoNat, hten]
    push_cast
    linear_combination (mantissa * 2 ^ (-k : ℤ) : ℚ) * hfive

/-- A shortest decimal rounds to its number. -/
theorem exists_contains_shortest (h : IsCanonical mantissa exponent) :
    ∃ n : ℕ, (around mantissa exponent).contains n = true ∧
      (shortest mantissa exponent).value = n * unit := by
  unfold shortest
  rw [value_trim]
  cases hfound : (List.range 17).findSome? fun n =>
      (around mantissa exponent).nearestOnGrid?
        ((around mantissa exponent).digitCount - (n + 1)) with
  | none =>
    exact ⟨_, contains_middle h.pos,
      (value_exact mantissa exponent).trans (middle_mul_unit mantissa h.le_exponent).symm⟩
  | some d =>
    obtain ⟨k, -, hk⟩ := List.exists_of_findSome?_eq_some hfound
    exact exists_contains_nearestOnGrid? hk

/-- Numbers whose shortest decimals have the same value are the same. -/
theorem eq_of_value_shortest (h : IsCanonical mantissa exponent)
    (h' : IsCanonical mantissa' exponent')
    (hvalue : (shortest mantissa exponent).value = (shortest mantissa' exponent').value) :
    mantissa = mantissa' ∧ exponent = exponent' := by
  obtain ⟨n, hn, hvalue₁⟩ := exists_contains_shortest h
  obtain ⟨n', hn', hvalue₂⟩ := exists_contains_shortest h'
  have hunits : (n : ℚ) * unit = n' * unit := by rw [← hvalue₁, hvalue, hvalue₂]
  obtain rfl : n = n' := Nat.cast_injective (mul_right_cancel₀ unit_pos.ne' hunits)
  exact eq_of_contains h h' hn hn'

/-- The shortest decimal of a positive number is positive. -/
theorem value_shortest_pos (h : IsCanonical mantissa exponent) :
    0 < (shortest mantissa exponent).value := by
  obtain ⟨n, hn, hvalue⟩ := exists_contains_shortest h
  rw [hvalue]
  exact mul_pos (Nat.cast_pos.mpr (pos_of_contains h.pos hn)) unit_pos

end Decimal

end ItemNeighbors
