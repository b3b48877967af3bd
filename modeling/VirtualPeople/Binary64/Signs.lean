import VirtualPeople.Binary64.FractionalPart

/-!
# Signs, zeros and infinities

The arithmetic of the special doubles: which signs sums and quotients have,
when a sum is not a number, and what becomes of a quotient by a zero of either
sign.
-/

namespace Binary64

open Float.Model
open Float.Model.UnpackedFloat

/-- A number with the sign, be it zero, finite or infinite. -/
def HasSign (sign : Sign) : UnpackedFloat → Prop
  | .notANumber => False
  | .zero sign' => sign' = sign
  | .infinity sign' => sign' = sign
  | .finite sign' _ _ _ => sign' = sign

/-- The zero that a comparison does not tell from the positive one. -/
def IsNegativeZero (float : Float) : Prop :=
  float.toModel.unpack = .zero .negative

theorem isNaN_iff {float : Float} :
    float.isNaN = true ↔ float.toModel.unpack = .notANumber := by
  change float.toModel.unpack.isNaN = true ↔ _
  cases float.toModel.unpack <;> simp [UnpackedFloat.isNaN]

/-! ## Packing -/

/-- Components that are packed under an exponent that is not all ones keep their
sign. -/
theorem hasSign_unpack_packComponents (sign : Sign) {exponent : BitVec 11}
    (mantissa : BitVec 52) (notOnes : exponent ≠ -1#11) :
    HasSign sign (UnpackedFloat.unpack Format.binary64
      (packComponents Format.binary64 sign exponent mantissa)) := by
  simp only [UnpackedFloat.unpack, unpackMantissa_packComponents,
    unpackExponent_packComponents, unpackSign_packComponents,
    ofBitVec_toBitVec, if_neg notOnes]
  split_ifs
  · rfl
  · rfl
  · rfl

theorem HasSign.unpack_pack {sign : Sign} {unpacked : UnpackedFloat}
    (hasSign : HasSign sign unpacked) : HasSign sign (pack unpacked).unpack := by
  cases unpacked with
  | notANumber => exact hasSign
  | zero sign' =>
    rw [show sign' = sign from hasSign, unpack_pack_zero]
    rfl
  | infinity sign' =>
    rw [show sign' = sign from hasSign]
    cases sign <;> rfl
  | finite sign' mantissa exponent positive =>
    rw [show sign' = sign from hasSign]
    change HasSign sign (UnpackedFloat.unpack Format.binary64
      (UnpackedFloat.pack Format.binary64 (.finite sign mantissa exponent
        positive)))
    simp only [UnpackedFloat.pack]
    split_ifs with large
    · cases sign <;> rfl
    · refine hasSign_unpack_packComponents sign _ fun ones => ?_
      have := congrArg BitVec.toNat ones
      rw [BitVec.toNat_ofNat] at this
      change _ = 2047 at this
      omega
    · exact hasSign_unpack_packComponents sign _ (by decide)

/-- The sign is packed by itself. -/
theorem unpack_packComponents_neg (sign : Sign) (exponent : BitVec 11)
    (mantissa : BitVec 52) :
    UnpackedFloat.unpack Format.binary64
        (packComponents Format.binary64 (-sign) exponent mantissa) =
      (UnpackedFloat.unpack Format.binary64
        (packComponents Format.binary64 sign exponent mantissa)).neg := by
  simp only [UnpackedFloat.unpack, unpackMantissa_packComponents,
    unpackExponent_packComponents, unpackSign_packComponents,
    ofBitVec_toBitVec]
  split_ifs <;> rfl

/-- A change of the sign goes through packing. -/
theorem unpack_pack_neg (unpacked : UnpackedFloat) :
    (pack unpacked.neg).unpack = (pack unpacked).unpack.neg := by
  cases unpacked with
  | notANumber => rfl
  | zero sign => cases sign <;> rfl
  | infinity sign => cases sign <;> rfl
  | finite sign mantissa exponent positive =>
    change UnpackedFloat.unpack Format.binary64 (UnpackedFloat.pack
        Format.binary64 (.finite (-sign) mantissa exponent positive)) =
      (UnpackedFloat.unpack Format.binary64 (UnpackedFloat.pack
        Format.binary64 (.finite sign mantissa exponent positive))).neg
    simp only [UnpackedFloat.pack]
    split_ifs
    · exact unpack_packComponents_neg sign _ _
    · exact unpack_packComponents_neg sign _ _
    · exact unpack_packComponents_neg sign _ _

/-- Whatever is unpacked from 64 bits survives packing. -/
theorem unpack_pack_unpack (float : Float) :
    (pack float.toModel.unpack).unpack = float.toModel.unpack := by
  cases unpacked : float.toModel.unpack with
  | notANumber => rfl
  | zero sign => exact unpack_pack_zero sign
  | infinity sign => cases sign <;> rfl
  | finite sign mantissa exponent positive =>
    obtain ⟨canonical, le⟩ := canonical_of_unpack_eq unpacked
    exact unpack_pack_finite sign positive canonical le

/-! ## Rounding -/

theorem hasSign_roundWithAccuracy (sign : Sign) (mantissa : ℕ) (exponent : ℤ)
    (accuracy : Accuracy) :
    HasSign sign
      (roundWithAccuracy Format.binary64 sign mantissa exponent accuracy) := by
  unfold roundWithAccuracy
  simp only
  split_ifs
  · rfl
  · rfl

theorem hasSign_normalize {mantissa : ℤ} (nonneg : 0 ≤ mantissa)
    (exponent : ℤ) :
    HasSign .positive
      (UnpackedFloat.normalize Format.binary64 mantissa exponent .positive) := by
  unfold UnpackedFloat.normalize
  rcases nonneg.eq_or_lt with rfl | positive
  · rfl
  · rw [compare_gt_iff_gt.mpr positive]
    exact hasSign_roundWithAccuracy _ _ _ _

/-! ## Comparison with zero -/

/-- What is not below zero is no number, the negative zero, or has a positive
sign. -/
theorem not_lt_zero_cases {float : Float} (notNegative : ¬float < 0.0) :
    float.toModel.unpack = .notANumber ∨ IsNegativeZero float ∨
      HasSign .positive float.toModel.unpack := by
  rw [lt_iff_compare, unpack_zero] at notNegative
  unfold IsNegativeZero
  cases unpacked : float.toModel.unpack with
  | notANumber => exact Or.inl rfl
  | zero sign =>
    cases sign with
    | negative => exact Or.inr (Or.inl rfl)
    | positive => exact Or.inr (Or.inr rfl)
  | infinity sign =>
    cases sign with
    | negative => simp [unpacked, UnpackedFloat.compare] at notNegative
    | positive => exact Or.inr (Or.inr rfl)
  | finite sign mantissa exponent positive =>
    cases sign with
    | negative => simp [unpacked, UnpackedFloat.compare] at notNegative
    | positive => exact Or.inr (Or.inr rfl)

/-- A number that is not below zero is above it or a zero. -/
theorem zero_lt_or_zero {float : Float} (number : ¬float.isNaN)
    (notNegative : ¬float < 0.0) :
    0.0 < float ∨ ∃ sign, float.toModel.unpack = .zero sign := by
  rw [lt_iff_compare, unpack_zero]
  rcases not_lt_zero_cases notNegative with nan | negativeZero | positive
  · exact absurd (isNaN_iff.mpr nan) number
  · exact Or.inr ⟨_, negativeZero⟩
  · cases unpacked : float.toModel.unpack with
    | notANumber => exact absurd (isNaN_iff.mpr unpacked) number
    | zero sign => exact Or.inr ⟨sign, rfl⟩
    | infinity sign =>
      rw [unpacked] at positive
      rw [show sign = .positive from positive]
      exact Or.inl rfl
    | finite sign mantissa exponent mantissaPos =>
      rw [unpacked] at positive
      rw [show sign = .positive from positive]
      exact Or.inl rfl

theorem hasSign_of_zero_lt {float : Float} (above : 0.0 < float) :
    HasSign .positive float.toModel.unpack := by
  rw [lt_iff_compare, unpack_zero] at above
  cases unpacked : float.toModel.unpack with
  | notANumber => simp [unpacked, UnpackedFloat.compare] at above
  | zero sign => simp [unpacked, UnpackedFloat.compare] at above
  | infinity sign =>
    cases sign with
    | negative => simp [unpacked, UnpackedFloat.compare] at above
    | positive => rfl
  | finite sign mantissa exponent positive =>
    cases sign with
    | negative => simp [unpacked, UnpackedFloat.compare] at above
    | positive => rfl

theorem not_zero_lt_of_zero {float : Float} {sign : Sign}
    (zero : float.toModel.unpack = .zero sign) : ¬0.0 < float := by
  rw [lt_iff_compare, unpack_zero, zero]
  simp [UnpackedFloat.compare]

theorem unpack_neg (float : Float) :
    (-float).toModel.unpack = float.toModel.unpack.neg := by
  change (pack float.toModel.unpack.neg).unpack = _
  rw [unpack_pack_neg, unpack_pack_unpack]

theorem not_neg_lt_zero {float : Float} (notAbove : ¬0.0 < float) :
    ¬-float < 0.0 := by
  rw [lt_iff_compare, unpack_zero] at notAbove ⊢
  rw [unpack_neg]
  cases unpacked : float.toModel.unpack with
  | notANumber => simp [UnpackedFloat.neg, UnpackedFloat.compare]
  | zero => simp [UnpackedFloat.neg, UnpackedFloat.compare]
  | infinity sign =>
    cases sign with
    | positive => simp [unpacked, UnpackedFloat.compare] at notAbove
    | negative =>
      intro below
      cases below
  | finite sign =>
    cases sign with
    | positive => simp [unpacked, UnpackedFloat.compare] at notAbove
    | negative =>
      intro below
      cases below

/-! ## Sums -/

section Sums

variable {a b : Float}

theorem unpack_add : (a + b).toModel.unpack = (pack (UnpackedFloat.add
    Format.binary64 a.toModel.unpack b.toModel.unpack)).unpack :=
  rfl

theorem hasSign_add (left : HasSign .positive a.toModel.unpack)
    (right : IsNegativeZero b ∨ HasSign .positive b.toModel.unpack) :
    HasSign .positive (a + b).toModel.unpack := by
  rw [unpack_add]
  apply HasSign.unpack_pack
  generalize a.toModel.unpack = a at *
  unfold IsNegativeZero at right
  generalize b.toModel.unpack = b at *
  rcases right with rfl | right
  · cases a with
    | notANumber => exact left
    | zero sign =>
      rw [show sign = .positive from left]
      rfl
    | infinity sign => exact left
    | finite sign mantissa exponent positive => exact left
  · cases a with
    | notANumber => contradiction
    | zero sign =>
      rw [show sign = .positive from left]
      cases b with
      | notANumber => contradiction
      | zero sign' =>
        rw [show sign' = .positive from right]
        rfl
      | infinity => exact right
      | finite => exact right
    | infinity sign =>
      rw [show sign = .positive from left]
      cases b with
      | notANumber => contradiction
      | zero => rfl
      | infinity sign' =>
        rw [show sign' = .positive from right]
        rfl
      | finite => rfl
    | finite sign mantissa exponent positive =>
      rw [show sign = .positive from left]
      cases b with
      | notANumber => contradiction
      | zero => rfl
      | infinity => exact right
      | finite sign' mantissa' exponent' positive' =>
        rw [show sign' = .positive from right]
        refine hasSign_normalize ?_ _
        exact Int.add_nonneg (Int.natCast_nonneg _) (Int.natCast_nonneg _)

theorem add_notANumber (nan : a.toModel.unpack = .notANumber ∨
    b.toModel.unpack = .notANumber) :
    (a + b).toModel.unpack = .notANumber := by
  have same : UnpackedFloat.add Format.binary64 a.toModel.unpack
      b.toModel.unpack = .notANumber := by
    rcases nan with nan | nan
    · simp [nan, UnpackedFloat.add]
    · rw [nan]
      cases a.toModel.unpack <;> simp [UnpackedFloat.add]
  rw [unpack_add, same]
  rfl

/-- Adding a zero leaves a zero some zero, and everything else as it is. -/
theorem add_zero_cases {sign : Sign} (zero : b.toModel.unpack = .zero sign) :
    (∃ sign', a.toModel.unpack = .zero sign') ∧
        (∃ sign', (a + b).toModel.unpack = .zero sign') ∨
      (a + b).toModel.unpack = a.toModel.unpack := by
  cases unpacked : a.toModel.unpack with
  | zero sign' =>
    refine Or.inl ⟨⟨sign', rfl⟩, ?_⟩
    rw [unpack_add, unpacked, zero]
    cases sign <;> cases sign' <;> exact ⟨_, unpack_pack_zero _⟩
  | notANumber =>
    right
    rw [add_notANumber (Or.inl unpacked)]
  | infinity sign' =>
    right
    rw [unpack_add, unpacked, zero, ← unpacked]
    refine Eq.trans ?_ (unpack_pack_unpack a)
    rw [unpacked]
    rfl
  | finite sign' mantissa exponent positive =>
    right
    rw [unpack_add, unpacked, zero, ← unpacked]
    refine Eq.trans ?_ (unpack_pack_unpack a)
    rw [unpacked]
    rfl

end Sums

/-- A sum of numbers that are not below zero is such a number. -/
theorem hasSign_foldl_add {start : Float} {terms : List Float}
    (startSign : HasSign .positive start.toModel.unpack)
    (notNegative : ∀ term ∈ terms, ¬term < 0.0)
    (numbers : ∀ term ∈ terms, ¬term.isNaN) :
    HasSign .positive (terms.foldl (· + ·) start).toModel.unpack := by
  induction terms generalizing start with
  | nil => exact startSign
  | cons term terms inductionHypothesis =>
    rw [List.forall_mem_cons] at notNegative numbers
    refine inductionHypothesis (hasSign_add startSign ?_) notNegative.2
      numbers.2
    rcases not_lt_zero_cases notNegative.1 with nan | sign
    · exact absurd (isNaN_iff.mpr nan) numbers.1
    · exact sign

theorem foldl_add_notANumber {start : Float} {terms : List Float}
    (nan : start.toModel.unpack = .notANumber ∨ ∃ term ∈ terms, term.isNaN) :
    (terms.foldl (· + ·) start).toModel.unpack = .notANumber := by
  induction terms generalizing start with
  | nil => simpa using nan
  | cons term terms inductionHypothesis =>
    rw [List.foldl_cons]
    apply inductionHypothesis
    rcases nan with startNaN | ⟨other, member, nan⟩
    · exact Or.inl (add_notANumber (Or.inl startNaN))
    · rcases List.mem_cons.mp member with rfl | member
      · exact Or.inl (add_notANumber (Or.inr (isNaN_iff.mp nan)))
      · exact Or.inr ⟨other, member, nan⟩

/-- Adding zeros to the end of a sum leaves a zero some zero, and everything else
as it is. -/
theorem foldl_add_zeros {start : Float} {zeros : List Float}
    (areZeros : ∀ zero ∈ zeros, ∃ sign, zero.toModel.unpack = .zero sign) :
    (∃ sign, start.toModel.unpack = .zero sign) ∧
        (∃ sign, (zeros.foldl (· + ·) start).toModel.unpack = .zero sign) ∨
      (zeros.foldl (· + ·) start).toModel.unpack = start.toModel.unpack := by
  induction zeros generalizing start with
  | nil => exact Or.inr rfl
  | cons zero zeros inductionHypothesis =>
    rw [List.forall_mem_cons] at areZeros
    obtain ⟨⟨sign, isZero⟩, areZeros⟩ := areZeros
    rw [List.foldl_cons]
    rcases @add_zero_cases start zero sign isZero with
      ⟨startZero, sumZero⟩ | same
    · left
      rcases @inductionHypothesis (start + zero) areZeros with
        ⟨-, foldZero⟩ | sameFold
      · exact ⟨startZero, foldZero⟩
      · exact ⟨startZero, sameFold ▸ sumZero⟩
    · rw [← same]
      exact inductionHypothesis areZeros

/-! ## Quotients -/

/-- A quotient depends on what is unpacked of the divisor. -/
theorem div_congr {a b b' : Float} (same : b.toModel.unpack = b'.toModel.unpack) :
    a / b = a / b' := by
  change Float.ofModel (.pack (UnpackedFloat.div Format.binary64
    a.toModel.unpack b.toModel.unpack)) = .ofModel (.pack (UnpackedFloat.div
      Format.binary64 a.toModel.unpack b'.toModel.unpack))
  rw [same]

section Quotients

variable {a b : Float}

theorem unpack_div : (a / b).toModel.unpack = (pack (UnpackedFloat.div
    Format.binary64 a.toModel.unpack b.toModel.unpack)).unpack :=
  rfl

theorem div_notANumber (nan : a.toModel.unpack = .notANumber ∨
    b.toModel.unpack = .notANumber) :
    (a / b).toModel.unpack = .notANumber := by
  have same : UnpackedFloat.div Format.binary64 a.toModel.unpack
      b.toModel.unpack = .notANumber := by
    rcases nan with nan | nan
    · simp [nan, UnpackedFloat.div]
    · rw [nan]
      cases a.toModel.unpack <;> simp [UnpackedFloat.div]
  rw [unpack_div, same]
  rfl

/-- Quotients under a positive sign are no number or have the sign of the
dividend. -/
theorem div_hasSign {sign : Sign} (left : HasSign sign a.toModel.unpack)
    (right : HasSign .positive b.toModel.unpack) :
    (a / b).toModel.unpack = .notANumber ∨
      HasSign sign (a / b).toModel.unpack := by
  have kept (sign : Sign) : sign / .positive = sign := by
    cases sign <;> rfl
  have quotient : UnpackedFloat.div Format.binary64 a.toModel.unpack
      b.toModel.unpack = .notANumber ∨
        HasSign sign (UnpackedFloat.div Format.binary64 a.toModel.unpack
          b.toModel.unpack) := by
    generalize a.toModel.unpack = a at *
    generalize b.toModel.unpack = b at *
    cases a with
    | notANumber => contradiction
    | zero sign' =>
      rw [show sign' = sign from left]
      cases b with
      | notANumber => contradiction
      | zero => exact Or.inl rfl
      | infinity sign'' =>
        rw [show sign'' = .positive from right]
        exact Or.inr (kept sign)
      | finite sign'' =>
        rw [show sign'' = .positive from right]
        exact Or.inr (kept sign)
    | infinity sign' =>
      rw [show sign' = sign from left]
      cases b with
      | notANumber => contradiction
      | zero sign'' =>
        rw [show sign'' = .positive from right]
        exact Or.inr (kept sign)
      | infinity => exact Or.inl rfl
      | finite sign'' =>
        rw [show sign'' = .positive from right]
        exact Or.inr (kept sign)
    | finite sign' mantissa exponent positive =>
      rw [show sign' = sign from left]
      cases b with
      | notANumber => contradiction
      | zero sign'' =>
        rw [show sign'' = .positive from right]
        exact Or.inr (kept sign)
      | infinity sign'' =>
        rw [show sign'' = .positive from right]
        exact Or.inr (kept sign)
      | finite sign'' mantissa' exponent' positive' =>
        rw [show sign'' = .positive from right]
        simp only [UnpackedFloat.div, kept]
        exact Or.inr (hasSign_roundWithAccuracy _ _ _ _)
  rw [unpack_div]
  rcases quotient with nan | hasSign
  · rw [nan]
    exact Or.inl rfl
  · exact Or.inr hasSign.unpack_pack

theorem zero_div_zero {sign sign' : Sign} (zero : a.toModel.unpack = .zero sign)
    (zero' : b.toModel.unpack = .zero sign') :
    (a / b).toModel.unpack = .notANumber := by
  have same : UnpackedFloat.div Format.binary64 (.zero sign) (.zero sign') =
      .notANumber := rfl
  rw [unpack_div, zero, zero', same]
  rfl

/-- A zero over a finite number stays a zero of its sign. -/
theorem zero_div_finite {sign : Sign} (zero : a.toModel.unpack = .zero sign)
    {mantissa : ℕ} {exponent : ℤ} {positive : 0 < mantissa}
    (finite : b.toModel.unpack = .finite .positive mantissa exponent positive) :
    (a / b).toModel.unpack = .zero sign := by
  have same : UnpackedFloat.div Format.binary64 a.toModel.unpack
      b.toModel.unpack = .zero sign := by
    rw [zero, finite]
    cases sign <;> rfl
  rw [unpack_div, same, unpack_pack_zero]

theorem div_zero_of_pos (above : 0.0 < a) {sign : Sign}
    (zero : b.toModel.unpack = .zero sign) :
    (a / b).toModel.unpack = .infinity sign := by
  have infinite : (pack (.infinity sign)).unpack = .infinity sign := by
    cases sign <;> rfl
  have kept : Sign.positive / sign = sign := by
    cases sign <;> rfl
  have hasSign := hasSign_of_zero_lt above
  rw [unpack_div, zero]
  cases unpacked : a.toModel.unpack with
  | notANumber => simp [unpacked, HasSign] at hasSign
  | zero sign' => exact absurd above (not_zero_lt_of_zero unpacked)
  | infinity sign' =>
    rw [unpacked] at hasSign
    rw [show sign' = .positive from hasSign]
    simp only [UnpackedFloat.div, kept, infinite]
  | finite sign' mantissa exponent positive =>
    rw [unpacked] at hasSign
    rw [show sign' = .positive from hasSign]
    simp only [UnpackedFloat.div, kept, infinite]

/-- What is not below zero is over a zero infinite or no number. -/
theorem div_zero_cases (notNegative : ¬a < 0.0) {sign : Sign}
    (zero : b.toModel.unpack = .zero sign) :
    ¬0.0 < a ∧ (a / b).toModel.unpack = .notANumber ∨
      0.0 < a ∧ (a / b).toModel.unpack = .infinity sign := by
  by_cases nan : a.isNaN
  · refine Or.inl ⟨?_, div_notANumber (Or.inl (isNaN_iff.mp nan))⟩
    rw [lt_iff_compare, unpack_zero, isNaN_iff.mp nan]
    simp [UnpackedFloat.compare]
  · rcases zero_lt_or_zero nan notNegative with above | ⟨sign', aZero⟩
    · exact Or.inr ⟨above, div_zero_of_pos above zero⟩
    · exact Or.inl ⟨not_zero_lt_of_zero aZero, zero_div_zero aZero zero⟩

theorem negative_zero_div_ne_infinity {sign : Sign} (zero : IsNegativeZero a) :
    (a / b).toModel.unpack ≠ .infinity sign := by
  intro infinite
  cases unpacked : b.toModel.unpack with
  | notANumber =>
    rw [div_notANumber (Or.inr unpacked)] at infinite
    contradiction
  | zero sign' =>
    rw [zero_div_zero zero unpacked] at infinite
    contradiction
  | infinity sign' =>
    rw [unpack_div, zero] at infinite
    simp only [unpacked, UnpackedFloat.div, unpack_pack_zero] at infinite
    contradiction
  | finite sign' mantissa exponent positive =>
    rw [unpack_div, zero] at infinite
    simp only [unpacked, UnpackedFloat.div, unpack_pack_zero] at infinite
    contradiction

/-- Under a positive sign, what is not below zero has no quotient at negative
infinity. -/
theorem div_ne_negative_infinity (notNegative : ¬a < 0.0)
    (right : b.toModel.unpack = .notANumber ∨
      HasSign .positive b.toModel.unpack) :
    (a / b).toModel.unpack ≠ .infinity .negative := by
  intro infinite
  rcases right with nan | right
  · rw [div_notANumber (Or.inr nan)] at infinite
    contradiction
  · rcases not_lt_zero_cases notNegative with nan | negativeZero | positive
    · rw [div_notANumber (Or.inl nan)] at infinite
      contradiction
    · exact negative_zero_div_ne_infinity negativeZero infinite
    · rcases div_hasSign positive right with nan | hasSign
      · rw [nan] at infinite
        contradiction
      · rw [infinite] at hasSign
        contradiction

end Quotients

/-! ## Infinities -/

section Infinities

variable {float bound : Float}

/-- Nothing is above these. -/
theorem not_lt_of_top (top : float.toModel.unpack = .notANumber ∨
    float.toModel.unpack = .infinity .positive) : ¬float < bound := by
  rw [lt_iff_compare]
  rcases top with nan | infinite
  · simp [nan, UnpackedFloat.compare]
  · rw [infinite]
    cases bound.toModel.unpack with
    | infinity sign => cases sign <;> simp [UnpackedFloat.compare, compare]
    | notANumber => simp [UnpackedFloat.compare]
    | zero => simp [UnpackedFloat.compare]
    | finite => simp [UnpackedFloat.compare]

theorem not_lt_negative_infinity
    (bottom : bound.toModel.unpack = .infinity .negative) : ¬float < bound := by
  rw [lt_iff_compare, bottom]
  cases float.toModel.unpack with
  | infinity sign => cases sign <;> simp [UnpackedFloat.compare, compare]
  | notANumber => simp [UnpackedFloat.compare]
  | zero => simp [UnpackedFloat.compare]
  | finite sign => cases sign <;> simp [UnpackedFloat.compare]

theorem negative_infinity_lt
    (bottom : float.toModel.unpack = .infinity .negative)
    (number : bound.toModel.unpack ≠ .notANumber)
    (aboveBottom : bound.toModel.unpack ≠ .infinity .negative) :
    float < bound := by
  rw [lt_iff_compare, bottom]
  cases unpacked : bound.toModel.unpack with
  | infinity sign =>
    cases sign with
    | negative => exact absurd unpacked aboveBottom
    | positive => rfl
  | notANumber => exact absurd unpacked number
  | zero => rfl
  | finite => rfl

theorem number_of_lt (lt : float < bound) :
    float.toModel.unpack ≠ .notANumber := by
  intro nan
  rw [lt_iff_compare, nan] at lt
  simp [UnpackedFloat.compare] at lt

end Infinities

/-! ## Magnitudes -/

theorem hasSign_ofInt_neg {n : ℤ} (negative : n < 0) :
    HasSign .negative (ofInt n).toModel.unpack := by
  have rounded : HasSign .negative
      (UnpackedFloat.normalize Format.binary64 n 0 .positive) := by
    unfold UnpackedFloat.normalize
    rw [compare_lt_iff_lt.mpr negative]
    exact hasSign_roundWithAccuracy _ _ _ _
  exact rounded.unpack_pack

theorem roundWithAccuracy_neg (sign : Sign) (mantissa : ℕ) (exponent : ℤ)
    (accuracy : Accuracy) :
    roundWithAccuracy Format.binary64 (-sign) mantissa exponent accuracy =
      (roundWithAccuracy Format.binary64 sign mantissa exponent
        accuracy).neg := by
  unfold roundWithAccuracy
  simp only
  split_ifs <;> rfl

/-- Integers are rounded symmetrically. -/
theorem unpack_ofInt_neg {n : ℕ} (positive : 0 < n) :
    (ofInt (-n)).toModel.unpack = (ofInt n).toModel.unpack.neg := by
  have below : compare (-(n : ℤ)) 0 = .lt :=
    compare_lt_iff_lt.mpr (by omega)
  have above : compare (n : ℤ) 0 = .gt :=
    compare_gt_iff_gt.mpr (by omega)
  have normalized : UnpackedFloat.normalize Format.binary64 (-(n : ℤ)) 0
      .positive = (UnpackedFloat.normalize Format.binary64 n 0
        .positive).neg := by
    unfold UnpackedFloat.normalize
    rw [below, above]
    simp only [neg_neg]
    exact roundWithAccuracy_neg .positive _ _ _
  change (pack (UnpackedFloat.normalize Format.binary64 (-(n : ℤ)) 0
    .positive)).unpack = _
  rw [normalized, unpack_pack_neg]
  rfl

/-- Quotients are, too. -/
theorem unpack_div_neg {a a' b : Float}
    (negated : a'.toModel.unpack = a.toModel.unpack.neg) :
    (a' / b).toModel.unpack = (a / b).toModel.unpack.neg := by
  have kept (sign sign' : Sign) : -sign / sign' = -(sign / sign') := by
    cases sign <;> cases sign' <;> rfl
  rw [unpack_div, unpack_div, ← unpack_pack_neg, negated]
  congr 2
  cases a.toModel.unpack <;> cases b.toModel.unpack <;>
    simp only [UnpackedFloat.neg, UnpackedFloat.div, kept,
      roundWithAccuracy_neg]

theorem unpack_abs (float : Float) :
    float.abs.toModel.unpack = (pack float.toModel.unpack.abs).unpack :=
  rfl

/-- The magnitude of a number is that of the number below zero. -/
theorem Represents.abs {float float' : Float} {x : ℝ}
    (represents : Represents float x)
    (same : float'.toModel.unpack = float.toModel.unpack ∨
      float'.toModel.unpack = float.toModel.unpack.neg) :
    Represents float'.abs x := by
  have absEq : float'.abs.toModel.unpack = float.toModel.unpack := by
    have magnitude : float'.toModel.unpack.abs = float.toModel.unpack := by
      rcases same with same | same <;> rw [same] <;>
        cases represents with
        | zero unpacked => rw [unpacked]; rfl
        | finite unpacked => rw [unpacked]; rfl
    rw [unpack_abs, magnitude, unpack_pack_unpack]
  cases represents with
  | zero unpacked => exact .zero (absEq.trans unpacked)
  | finite unpacked => exact .finite (absEq.trans unpacked)

/-- The magnitude of an integer over a larger one is not above one. -/
theorem exists_represents_abs_div {n : ℤ} {d : ℕ} (le : n.natAbs ≤ d)
    (dPos : 0 < d) (dLt : d < 2 ^ 64) :
    ∃ x ≤ 1, Represents (ofInt n / ofInt d).abs x := by
  obtain ⟨x, xLe, represents⟩ := exists_represents_ofInt_div le dPos dLt
  refine ⟨x, xLe, represents.abs ?_⟩
  rcases le_or_gt 0 n with nonneg | negative
  · exact .inl (by rw [Int.natAbs_of_nonneg nonneg])
  · have negEq : n = -(n.natAbs : ℤ) := by omega
    have negated := unpack_ofInt_neg (n := n.natAbs) (by omega)
    rw [← negEq] at negated
    exact .inr (unpack_div_neg negated)

/-- The magnitude of a number has a positive sign. -/
theorem hasSign_abs (float : Float) :
    float.abs.toModel.unpack = .notANumber ∨
      HasSign .positive float.abs.toModel.unpack := by
  rw [unpack_abs]
  cases float.toModel.unpack with
  | notANumber => exact .inl rfl
  | zero sign => exact .inr (HasSign.unpack_pack rfl)
  | infinity sign => exact .inr (HasSign.unpack_pack rfl)
  | finite sign mantissa exponent positive =>
    exact .inr (HasSign.unpack_pack rfl)

/-- No magnitude is below a negative number. -/
theorem not_abs_lt_of_negative {float bound : Float}
    (negative : HasSign .negative bound.toModel.unpack) : ¬float.abs < bound := by
  rw [lt_iff_compare]
  have left := hasSign_abs float
  generalize float.abs.toModel.unpack = magnitude at left
  generalize bound.toModel.unpack = bound at negative
  rcases left with rfl | positive
  · simp [UnpackedFloat.compare]
  · cases magnitude with
    | notANumber => contradiction
    | zero sign =>
      rw [show sign = .positive from positive]
      cases bound with
      | notANumber => contradiction
      | zero sign' => simp [UnpackedFloat.compare]
      | infinity sign' =>
        rw [show sign' = .negative from negative]
        simp [UnpackedFloat.compare]
      | finite sign' =>
        rw [show sign' = .negative from negative]
        simp [UnpackedFloat.compare]
    | infinity sign =>
      rw [show sign = .positive from positive]
      cases bound with
      | notANumber => contradiction
      | zero sign' => simp [UnpackedFloat.compare]
      | infinity sign' => cases sign' <;> simp [UnpackedFloat.compare, compare]
      | finite sign' => simp [UnpackedFloat.compare]
    | finite sign =>
      rw [show sign = .positive from positive]
      cases bound with
      | notANumber => contradiction
      | zero sign' => simp [UnpackedFloat.compare]
      | infinity sign' =>
        rw [show sign' = .negative from negative]
        simp [UnpackedFloat.compare]
      | finite sign' =>
        rw [show sign' = .negative from negative]
        simp [UnpackedFloat.compare]

/-- No magnitude is below a negative whole number over a positive one. -/
theorem not_abs_lt_ofInt_div {float : Float} {n : ℤ} {d : ℕ}
    (negative : n < 0) : ¬float.abs < ofInt n / ofInt d := by
  have divisor : HasSign .positive (ofInt d).toModel.unpack :=
    HasSign.unpack_pack (hasSign_normalize (Int.natCast_nonneg d) 0)
  rcases div_hasSign (hasSign_ofInt_neg negative) divisor with nan | quotient
  · rw [lt_iff_compare, nan]
    cases float.abs.toModel.unpack <;> simp [UnpackedFloat.compare]
  · exact not_abs_lt_of_negative quotient

end Binary64
