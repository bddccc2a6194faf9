import ItemNeighbors.Numeral
import ItemNeighbors.Proofs.ShortestDecimals

/-!
# Reading written decimals

However a decimal is laid out, it is read back as a decimal of the same value.

- `Numeral.decimal?_of_point`, `Numeral.decimal?_of_whole`: what digits with and without a point
  are read as.
- `Numeral.exists_decimal?_chars`: a written decimal is read back.
-/

namespace ItemNeighbors

/-! ## Digits -/

namespace Decimal

theorem isDigit_digitChars (d : Decimal) : ∀ c ∈ d.digitChars, c.isDigit = true :=
  fun _ => Nat.isDigit_of_mem_toDigits (by decide) (by decide)

theorem ofDigitChars_digitChars (d : Decimal) : Nat.ofDigitChars 10 d.digitChars 0 = d.digits :=
  Nat.ofDigitChars_ten_toDigits

theorem digitChars_ne_nil (d : Decimal) : d.digitChars ≠ [] := Nat.toDigits_ne_nil

/-- More zeros behind the digits and a smaller exponent make the same value. -/
theorem value_shift (digits k : ℕ) (exponent : ℤ) :
    value ⟨digits * 10 ^ k, exponent - k⟩ = value ⟨digits, exponent⟩ := by
  have hten : (10 : ℚ) ^ exponent = 10 ^ k * 10 ^ (exponent - k) := by
    rw [← zpow_natCast, ← zpow_add₀ (by norm_num)]
    congr 1
    omega
  show ((digits * 10 ^ k : ℕ) : ℚ) * 10 ^ (exponent - k) = digits * 10 ^ exponent
  rw [hten]
  push_cast
  ring

end Decimal

namespace Numeral

variable {whole fraction rest : List Char} {exponent : ℤ}

/-- The digits at the start of a text end where something else follows. -/
theorem takeWhile_digits (hwhole : ∀ c ∈ whole, c.isDigit = true)
    (hrest : ∀ c ∈ rest.head?, c.isDigit = false) :
    (whole ++ rest).takeWhile Char.isDigit = whole ∧
      (whole ++ rest).dropWhile Char.isDigit = rest := by
  rw [List.takeWhile_append_of_pos hwhole, List.dropWhile_append_of_pos hwhole]
  cases rest with
  | nil => exact ⟨List.append_nil _, rfl⟩
  | cons c rest =>
    have hc : ¬ c.isDigit = true := Bool.eq_false_iff.mp (hrest c rfl)
    rw [List.takeWhile_cons_of_neg hc, List.dropWhile_cons_of_neg hc, List.append_nil]
    exact ⟨rfl, rfl⟩

/-- Digits on both sides of a point, with what follows them. -/
theorem decimal?_of_point (hne : whole ≠ []) (hwhole : ∀ c ∈ whole, c.isDigit = true)
    (hfraction : ∀ c ∈ fraction, c.isDigit = true)
    (hrest : ∀ c ∈ rest.head?, c.isDigit = false) (hexponent : exponent? rest = some exponent) :
    decimal? (whole ++ '.' :: (fraction ++ rest)) =
      some ⟨Nat.ofDigitChars 10 (whole ++ fraction) 0, exponent - fraction.length⟩ := by
  have hpoint : ∀ c ∈ ('.' :: (fraction ++ rest)).head?, c.isDigit = false := by
    intro c hc
    obtain rfl := Option.some.inj hc
    rfl
  obtain ⟨htake, hdrop⟩ := takeWhile_digits hwhole hpoint
  obtain ⟨htake', hdrop'⟩ := takeWhile_digits hfraction hrest
  unfold decimal?
  simp only [htake, hdrop, htake', hdrop', hexponent, List.isEmpty_eq_false_iff.mpr hne,
    Bool.false_and, Bool.false_eq_true, if_false, Option.map_some]

/-- Digits on both sides of a point, and nothing else. -/
theorem decimal?_of_fraction (hne : whole ≠ []) (hwhole : ∀ c ∈ whole, c.isDigit = true)
    (hfraction : ∀ c ∈ fraction, c.isDigit = true) :
    decimal? (whole ++ '.' :: fraction) =
      some ⟨Nat.ofDigitChars 10 (whole ++ fraction) 0, -fraction.length⟩ := by
  have hend : ∀ c ∈ ([] : List Char).head?, c.isDigit = false := nofun
  have hread := decimal?_of_point hne hwhole hfraction hend rfl
  rwa [List.append_nil, zero_sub] at hread

/-- Digits without a point, with what follows them. -/
theorem decimal?_of_whole (hne : whole ≠ []) (hwhole : ∀ c ∈ whole, c.isDigit = true)
    (hrest : ∀ c ∈ rest.head?, c.isDigit = false ∧ c ≠ '.')
    (hexponent : exponent? rest = some exponent) :
    decimal? (whole ++ rest) = some ⟨Nat.ofDigitChars 10 whole 0, exponent⟩ := by
  obtain ⟨htake, hdrop⟩ := takeWhile_digits hwhole fun c hc => (hrest c hc).1
  unfold decimal?
  rw [htake, hdrop]
  split
  rename_i fraction' rest' hsplit
  split at hsplit
  · exact absurd rfl (hrest '.' rfl).2
  · obtain ⟨rfl, rfl⟩ := Prod.mk.inj hsplit
    simp only [hexponent, List.isEmpty_eq_false_iff.mpr hne, Bool.false_and, Bool.false_eq_true,
      if_false, Option.map_some, List.append_nil, List.length_nil, Nat.cast_zero, sub_zero]

/-- A written power of ten is read as its exponent. -/
theorem exponent?_power (x : ℤ) :
    exponent? ('e' :: (if x < 0 then '-' else '+') :: Nat.toDigits 10 x.natAbs) = some x := by
  have hdigits : (Nat.toDigits 10 x.natAbs).all Char.isDigit = true :=
    List.all_eq_true.mpr fun c hc => Nat.isDigit_of_mem_toDigits (by decide) (by decide) hc
  have hne : (Nat.toDigits 10 x.natAbs).isEmpty = false :=
    List.isEmpty_eq_false_iff.mpr Nat.toDigits_ne_nil
  by_cases hx : x < 0
  · have habs : -(x.natAbs : ℤ) = x := by omega
    simp only [exponent?, hx, hdigits, hne, Nat.ofDigitChars_ten_toDigits, if_true, habs]
    rfl
  · have habs : (x.natAbs : ℤ) = x := by omega
    simp only [exponent?, hx, hdigits, hne, Nat.ofDigitChars_ten_toDigits, if_false, habs]
    rfl

end Numeral

/-! ## Layouts -/

namespace Numeral

variable {d : Decimal}

theorem isDigit_replicate (k : ℕ) : ∀ c ∈ List.replicate k '0', c.isDigit = true := by
  intro c hc
  obtain rfl := List.eq_of_mem_replicate hc
  rfl

theorem isDigit_append {l l' : List Char} (h : ∀ c ∈ l, c.isDigit = true)
    (h' : ∀ c ∈ l', c.isDigit = true) : ∀ c ∈ l ++ l', c.isDigit = true :=
  fun c hc => (List.mem_append.mp hc).elim (h c) (h' c)

theorem leadingExponent_eq (d : Decimal) :
    d.leadingExponent = d.digitChars.length - 1 + d.exponent := rfl

/-- A decimal below one is written with all digits behind the point. -/
theorem decimal?_plainChars_of_neg (hx : d.leadingExponent < 0) :
    decimal? d.plainChars = some d := by
  have hleading := leadingExponent_eq d
  have htext : d.plainChars =
      ['0'] ++ '.' :: (List.replicate (-d.leadingExponent - 1).toNat '0' ++ d.digitChars) :=
    if_pos hx
  generalize hzeros : (-d.leadingExponent - 1).toNat = k at htext
  have hread := decimal?_of_fraction (List.cons_ne_nil '0' []) (isDigit_replicate 1)
    (isDigit_append (isDigit_replicate k) d.isDigit_digitChars)
  have hvalue : Nat.ofDigitChars 10 (['0'] ++ (List.replicate k '0' ++ d.digitChars)) 0 =
      d.digits := by
    rw [Nat.ofDigitChars_append, Nat.ofDigitChars_append]
    show Nat.ofDigitChars 10 d.digitChars (Nat.ofDigitChars 10 (List.replicate k '0') 0) = _
    rw [Nat.ofDigitChars_replicate_zero, Nat.mul_zero, Decimal.ofDigitChars_digitChars]
  have hexponent : -((List.replicate k '0' ++ d.digitChars).length : ℤ) = d.exponent := by
    rw [List.length_append, List.length_replicate]
    omega
  rw [hvalue, hexponent] at hread
  rw [htext]
  exact hread

/-- A whole number is written with all digits and some zeros before the point. -/
theorem exists_decimal?_plainChars_of_le (hx : 0 ≤ d.leadingExponent)
    (hle : d.digitChars.length ≤ d.leadingExponent.toNat + 1) :
    ∃ d' : Decimal, decimal? d.plainChars = some d' ∧ d'.value = d.value := by
  have hleading := leadingExponent_eq d
  have htext : d.plainChars = d.digitChars ++
      List.replicate (d.leadingExponent.toNat + 1 - d.digitChars.length) '0' ++ '.' :: ['0'] :=
    (if_neg (by omega)).trans (if_pos hle)
  generalize hzeros : d.leadingExponent.toNat + 1 - d.digitChars.length = k at htext
  have hread := decimal?_of_fraction
    (List.append_ne_nil_of_left_ne_nil d.digitChars_ne_nil (List.replicate k '0'))
    (isDigit_append d.isDigit_digitChars (isDigit_replicate k)) (isDigit_replicate 1)
  have hvalue : Nat.ofDigitChars 10 (d.digitChars ++ List.replicate k '0' ++ ['0']) 0 =
      d.digits * 10 ^ (k + 1) := by
    rw [Nat.ofDigitChars_append, Nat.ofDigitChars_append, Decimal.ofDigitChars_digitChars,
      Nat.ofDigitChars_replicate_zero]
    show 10 * (10 ^ k * d.digits) + 0 = _
    ring
  have hexponent : -((['0'] : List Char).length : ℤ) = d.exponent - (k + 1 : ℕ) := by
    rw [List.length_singleton]
    omega
  refine ⟨⟨d.digits * 10 ^ (k + 1), d.exponent - (k + 1 : ℕ)⟩, ?_, Decimal.value_shift _ _ _⟩
  rw [htext, ← hvalue, ← hexponent]
  exact hread

/-- Any other decimal is written with the point between its digits. -/
theorem decimal?_plainChars_of_lt (hx : 0 ≤ d.leadingExponent)
    (hlt : d.leadingExponent.toNat + 1 < d.digitChars.length) :
    decimal? d.plainChars = some d := by
  have hleading := leadingExponent_eq d
  have htext : d.plainChars = d.digitChars.take (d.leadingExponent.toNat + 1) ++
      '.' :: d.digitChars.drop (d.leadingExponent.toNat + 1) :=
    (if_neg (by omega)).trans (if_neg (by omega))
  have hne : d.digitChars.take (d.leadingExponent.toNat + 1) ≠ [] := by
    rw [← List.length_pos_iff, List.length_take]
    omega
  have hfraction : ∀ c ∈ d.digitChars.drop (d.leadingExponent.toNat + 1), c.isDigit = true :=
    fun c hc => d.isDigit_digitChars c (List.mem_of_mem_drop hc)
  have hread := decimal?_of_fraction hne
    (fun c hc => d.isDigit_digitChars c (List.mem_of_mem_take hc)) hfraction
  have hexponent : -((d.digitChars.drop (d.leadingExponent.toNat + 1)).length : ℤ) =
      d.exponent := by
    rw [List.length_drop]
    omega
  rw [List.take_append_drop, Decimal.ofDigitChars_digitChars, hexponent] at hread
  rw [htext]
  exact hread

/-- Plain writing is read back. -/
theorem exists_decimal?_plainChars (d : Decimal) :
    ∃ d' : Decimal, decimal? d.plainChars = some d' ∧ d'.value = d.value := by
  rcases lt_or_ge d.leadingExponent 0 with hneg | hnonneg
  · exact ⟨d, decimal?_plainChars_of_neg hneg, rfl⟩
  · rcases Nat.lt_or_ge (d.leadingExponent.toNat + 1) d.digitChars.length with hlt | hle
    · exact ⟨d, decimal?_plainChars_of_lt hnonneg hlt, rfl⟩
    · exact exists_decimal?_plainChars_of_le hnonneg hle

/-- Writing by a power of ten is read back as it is. -/
theorem decimal?_powerChars (d : Decimal) : decimal? d.powerChars = some d := by
  have hdigits := d.isDigit_digitChars
  have hvalue := d.ofDigitChars_digitChars
  have hleading : d.leadingExponent = d.digitChars.length - 1 + d.exponent := rfl
  have hpower := exponent?_power d.leadingExponent
  unfold Decimal.powerChars
  dsimp only
  split
  · rename_i hnil
    exact absurd hnil d.digitChars_ne_nil
  · rename_i first hone
    rw [hone] at hdigits hvalue hleading
    have hread := decimal?_of_whole (List.cons_ne_nil first []) hdigits (by
      intro c hc
      obtain rfl := Option.some.inj hc
      exact ⟨rfl, by decide⟩) hpower
    have hexponent : d.leadingExponent = d.exponent := by
      rw [hleading, List.length_singleton]
      omega
    rw [hvalue, hexponent] at hread
    rw [hexponent]
    exact hread
  · rename_i first rest hne hmore
    rw [hmore] at hdigits hvalue hleading
    have hfirst : ∀ c ∈ [first], c.isDigit = true := fun c hc =>
      hdigits c (List.mem_singleton.mp hc ▸ List.mem_cons_self)
    have hread := decimal?_of_point (List.cons_ne_nil first []) hfirst
      (fun c hc => hdigits c (List.mem_cons_of_mem _ hc)) (by
      intro c hc
      obtain rfl := Option.some.inj hc
      rfl) hpower
    have hexponent : d.leadingExponent - (rest.length : ℤ) = d.exponent := by
      rw [hleading, List.length_cons]
      omega
    have hvalue' : Nat.ofDigitChars 10 ([first] ++ rest) 0 = d.digits := hvalue
    rw [hvalue', hexponent] at hread
    exact hread

/-- However a decimal is laid out, it is read back as a decimal of the same value. -/
theorem exists_decimal?_chars (layout : DecimalLayout) (d : Decimal) :
    ∃ d' : Decimal, decimal? (d.chars layout) = some d' ∧ d'.value = d.value := by
  unfold Decimal.chars
  split
  · exact exists_decimal?_plainChars d
  · exact ⟨d, decimal?_powerChars d, rfl⟩

end Numeral

end ItemNeighbors
