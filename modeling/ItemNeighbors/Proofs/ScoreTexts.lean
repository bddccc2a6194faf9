import ItemNeighbors.Proofs.DecimalTexts
import ItemNeighbors.Proofs.ScoreOrder
import ItemNeighbors.Report

/-!
# Texts of scores

A finite score is written as a number that is read back as a decimal of its interval, a zero as one
that is read back as zero, and infinities as `null`. So among the scores that a row can hold, which
are no NaN and not the negative infinity, the text determines the score.

- `Report.IsNumberChar`: the characters of numbers.
- `Report.Written`: the texts of the scores that a row can hold.
- `Report.scoreText_inj`: different scores have different texts.
-/

namespace ItemNeighbors

/-! ## Characters -/

namespace Report

/-- The characters that numbers are written with. -/
def IsNumberChar (c : Char) : Prop := c.isDigit = true ∨ c ∈ ['-', '+', '.', 'e']

theorem isNumberChar_digits (n : ℕ) : ∀ c ∈ Nat.toDigits 10 n, IsNumberChar c :=
  fun _ hc => .inl (Nat.isDigit_of_mem_toDigits (by decide) (by decide) hc)

theorem isNumberChar_zeros (k : ℕ) : ∀ c ∈ List.replicate k '0', IsNumberChar c :=
  fun c hc => .inl (Numeral.isDigit_replicate k c hc)

theorem isNumberChar_plainChars (d : Decimal) : ∀ c ∈ d.plainChars, IsNumberChar c := by
  have hdigits : ∀ c ∈ d.digitChars, IsNumberChar c := isNumberChar_digits d.digits
  have hpoint : IsNumberChar '.' := .inr (by decide)
  have hzero : IsNumberChar '0' := .inl rfl
  unfold Decimal.plainChars
  dsimp only
  split
  · rw [List.forall_mem_cons, List.forall_mem_cons, List.forall_mem_append]
    exact ⟨hzero, hpoint, isNumberChar_zeros _, hdigits⟩
  · split
    · rw [List.forall_mem_append, List.forall_mem_append, List.forall_mem_cons,
        List.forall_mem_singleton]
      exact ⟨⟨hdigits, isNumberChar_zeros _⟩, hpoint, hzero⟩
    · rw [List.forall_mem_append, List.forall_mem_cons]
      exact ⟨fun c hc => hdigits c (List.mem_of_mem_take hc), hpoint,
        fun c hc => hdigits c (List.mem_of_mem_drop hc)⟩

theorem isNumberChar_powerChars (d : Decimal) : ∀ c ∈ d.powerChars, IsNumberChar c := by
  have hdigits : ∀ c ∈ d.digitChars, IsNumberChar c := isNumberChar_digits d.digits
  have hmark : IsNumberChar 'e' := .inr (by decide)
  have hsign : IsNumberChar (if d.leadingExponent < 0 then '-' else '+') := by
    split
    · exact .inr (by decide)
    · exact .inr (by decide)
  unfold Decimal.powerChars
  dsimp only
  rw [List.forall_mem_append, List.forall_mem_cons, List.forall_mem_cons]
  refine ⟨?_, hmark, hsign, isNumberChar_digits _⟩
  split
  · nofun
  · rename_i first hone
    rwa [hone] at hdigits
  · rename_i first rest hne hmore
    rw [hmore, List.forall_mem_cons] at hdigits
    rw [List.forall_mem_cons, List.forall_mem_cons]
    exact ⟨hdigits.1, .inr (by decide), hdigits.2⟩

theorem isNumberChar_chars (layout : DecimalLayout) (d : Decimal) :
    ∀ c ∈ d.chars layout, IsNumberChar c := by
  unfold Decimal.chars
  split
  · exact isNumberChar_plainChars d
  · exact isNumberChar_powerChars d

theorem isNumberChar_signChars (sign : Float.Model.UnpackedFloat.Sign) :
    ∀ c ∈ signChars sign, IsNumberChar c := by
  cases sign with
  | positive => nofun
  | negative =>
    rintro c hc
    obtain rfl := List.mem_singleton.mp hc
    exact .inr (by decide)

/-- A score is written as `null` or with the characters of numbers. -/
theorem scoreText_chars (score : Float) :
    scoreText score = "null" ∨ ∀ c ∈ (scoreText score).toList, IsNumberChar c := by
  unfold scoreText
  split
  · exact .inl rfl
  · exact .inl rfl
  · rename_i sign _
    refine .inr ?_
    rw [String.toList_ofList, List.forall_mem_append]
    refine ⟨isNumberChar_signChars sign, fun c hc => ?_⟩
    revert c
    rw [List.forall_mem_cons, List.forall_mem_cons, List.forall_mem_singleton]
    exact ⟨.inl rfl, .inr (by decide), .inl rfl⟩
  · rename_i sign mantissa exponent _ _
    refine .inr ?_
    rw [String.toList_ofList, List.forall_mem_append]
    exact ⟨isNumberChar_signChars sign, isNumberChar_chars _ _⟩

/-! ## The score of a text -/

/-- No number begins with a character that is neither a digit nor a point. -/
theorem decimal?_cons_eq_none {c : Char} (rest : List Char) (hdigit : c.isDigit = false)
    (hpoint : c ≠ '.') : Numeral.decimal? (c :: rest) = none := by
  have hc : ¬ c.isDigit = true := Bool.eq_false_iff.mp hdigit
  unfold Numeral.decimal?
  rw [List.takeWhile_cons_of_neg hc, List.dropWhile_cons_of_neg hc]
  split
  rename_i fraction rest' hsplit
  split at hsplit
  · rename_i htext
    exact absurd (List.cons.inj htext).1 hpoint
  · obtain ⟨rfl, rfl⟩ := Prod.mk.inj hsplit
    rfl

open Float.Model (UnpackedFloat)
open Float.Model.UnpackedFloat (Sign)

/-- The texts of the scores that a row can hold. -/
inductive Written (score : Float) : List Char → Prop where
  | infinity (hscore : score.toModel.unpack = .infinity .positive) : Written score "null".toList
  | zero {sign : Sign} {body : List Char} {d : Decimal}
      (hscore : score.toModel.unpack = .zero sign) (hread : Numeral.decimal? body = some d)
      (hvalue : d.value = 0) : Written score (signChars sign ++ body)
  | finite {sign : Sign} {mantissa : ℕ} {exponent : ℤ} {hpos : 0 < mantissa} {body : List Char}
      {d : Decimal} (hscore : score.toModel.unpack = .finite sign mantissa exponent hpos)
      (hread : Numeral.decimal? body = some d)
      (hvalue : d.value = (Decimal.shortest mantissa exponent).value) :
      Written score (signChars sign ++ body)

/-- A score that a row can hold: it is a number, and not the negative infinity. -/
structure IsKept (score : Float) : Prop where
  not_nan : score.toModel.unpack ≠ .notANumber
  not_negative_infinity : score.toModel.unpack ≠ .infinity .negative

theorem IsKept.written {score : Float} (h : IsKept score) :
    Written score (scoreText score).toList := by
  unfold scoreText
  split
  · rename_i sign hscore
    cases sign with
    | negative => exact absurd hscore h.not_negative_infinity
    | positive => exact .infinity hscore
  · rename_i hscore
    exact absurd hscore h.not_nan
  · rename_i sign hscore
    rw [String.toList_ofList]
    have hread : Numeral.decimal? ['0', '.', '0'] = some ⟨0, -1⟩ := by decide
    exact .zero hscore hread (by rw [Decimal.value, Nat.cast_zero, zero_mul])
  · rename_i sign mantissa exponent hpos hscore
    rw [String.toList_ofList]
    obtain ⟨d, hread, hvalue⟩ :=
      Numeral.exists_decimal?_chars scoreLayout (Decimal.shortest mantissa exponent)
    exact .finite hscore hread hvalue

/-- A sign shows where a number begins. -/
theorem signChars_append_inj {sign sign' : Sign} {body body' : List Char} {d d' : Decimal}
    (h : signChars sign ++ body = signChars sign' ++ body')
    (hread : Numeral.decimal? body = some d) (hread' : Numeral.decimal? body' = some d') :
    sign = sign' ∧ d = d' := by
  cases sign with
  | positive =>
    cases sign' with
    | positive =>
      obtain rfl : body = body' := h
      exact ⟨rfl, Option.some.inj (hread.symm.trans hread')⟩
    | negative =>
      obtain rfl : body = '-' :: body' := h
      rw [decimal?_cons_eq_none body' rfl (by decide)] at hread
      cases hread
  | negative =>
    cases sign' with
    | positive =>
      obtain rfl : '-' :: body = body' := h
      rw [decimal?_cons_eq_none body rfl (by decide)] at hread'
      cases hread'
    | negative =>
      obtain rfl : body = body' := (List.cons.inj h).2
      exact ⟨rfl, Option.some.inj (hread.symm.trans hread')⟩

/-- No number is written `null`. -/
theorem null_ne_signChars_append {sign : Sign} {body : List Char} {d : Decimal}
    (hread : Numeral.decimal? body = some d) : "null".toList ≠ signChars sign ++ body := by
  intro h
  cases sign with
  | positive =>
    obtain rfl : 'n' :: "ull".toList = body := h
    rw [decimal?_cons_eq_none _ rfl (by decide)] at hread
    cases hread
  | negative => exact absurd (List.cons.inj h).1 (by decide)

/-- A text belongs to one score only. -/
theorem Written.inj {score score' : Float} {text text' : List Char} (h : Written score text)
    (h' : Written score' text') (htext : text = text') : score = score' := by
  cases h with
  | infinity hscore =>
    cases h' with
    | infinity hscore' => exact Score.unpack_inj (hscore.trans hscore'.symm)
    | zero _ hread' => exact absurd htext (null_ne_signChars_append hread')
    | finite _ hread' => exact absurd htext (null_ne_signChars_append hread')
  | zero hscore hread hvalue =>
    cases h' with
    | infinity => exact absurd htext.symm (null_ne_signChars_append hread)
    | zero hscore' hread' =>
      obtain ⟨rfl, -⟩ := signChars_append_inj htext hread hread'
      exact Score.unpack_inj (hscore.trans hscore'.symm)
    | finite hscore' hread' hvalue' =>
      obtain ⟨-, rfl⟩ := signChars_append_inj htext hread hread'
      have hpositive := Decimal.value_shortest_pos (Score.isCanonical_of_unpack hscore')
      exact absurd (hvalue.symm.trans hvalue') hpositive.ne
  | finite hscore hread hvalue =>
    cases h' with
    | infinity => exact absurd htext.symm (null_ne_signChars_append hread)
    | zero hscore' hread' hvalue' =>
      obtain ⟨-, rfl⟩ := signChars_append_inj htext hread hread'
      have hpositive := Decimal.value_shortest_pos (Score.isCanonical_of_unpack hscore)
      exact absurd (hvalue'.symm.trans hvalue) hpositive.ne
    | finite hscore' hread' hvalue' =>
      obtain ⟨rfl, rfl⟩ := signChars_append_inj htext hread hread'
      obtain ⟨rfl, rfl⟩ := Decimal.eq_of_value_shortest (Score.isCanonical_of_unpack hscore)
        (Score.isCanonical_of_unpack hscore') (hvalue.symm.trans hvalue')
      exact Score.unpack_inj (hscore.trans hscore'.symm)

/-- Different scores have different texts. -/
theorem scoreText_inj {score score' : Float} (h : IsKept score) (h' : IsKept score')
    (htext : scoreText score = scoreText score') : score = score' :=
  h.written.inj h'.written (congrArg String.toList htext)

/-- Nothing ranks below the negative infinity. -/
theorem negative_infinity_le (u : UnpackedFloat) :
    Score.unpackedRank (.infinity .negative) ≤ Score.unpackedRank u := by
  have hclass {c : ℤ} (rest : ℤ ×ₗ ℤ) (hc : -2 < c) :
      (toLex (-2, toLex (0, 0)) : Score.Rank) ≤ toLex (c, rest) :=
    Prod.Lex.toLex_le_toLex.mpr (.inl hc)
  cases u with
  | infinity sign =>
    cases sign with
    | negative => exact le_refl _
    | positive => exact hclass _ (by decide)
  | notANumber => exact hclass _ (by decide)
  | zero sign => exact hclass _ (by decide)
  | finite sign mantissa exponent hpos =>
    cases sign with
    | negative => exact hclass _ (by decide)
    | positive => exact hclass _ (by decide)

/-- A score above a threshold can be held by a row. -/
theorem isKept_of_lt {threshold score : Float} (h : threshold < score) : IsKept score := by
  obtain ⟨-, hnan, hrank⟩ := Score.lt_iff.mp h
  constructor
  · intro hscore
    have htrue : score.toModel.unpack.isNaN = true := by
      rw [hscore]
      rfl
    exact absurd (hnan.symm.trans htrue) (by decide)
  · intro hscore
    rw [Score.rank, Score.rank, hscore] at hrank
    exact absurd hrank (not_lt_of_ge (negative_infinity_le _))

end Report

end ItemNeighbors
