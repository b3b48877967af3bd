import VirtualPeople.Binary64.Arithmetic

/-!
# Differences and fractional parts

A difference of two nonnegative doubles represents the rounded difference of
their values.  Taking the integral part from a double is exact, and so is
scaling by a power of two.
-/

namespace Binary64

open Float.Model
open Float.Model.UnpackedFloat

theorem Represents.representable {float : Float} {x : ℝ}
    (represents : Represents float x) : Representable x := by
  cases represents with
  | zero => exact ⟨0, 0, by norm_num, by norm_num, by simp⟩
  | @finite mantissa exponent _ unpacked =>
    have canonical := (canonical_of_unpack_eq unpacked).1
    exact ⟨mantissa, exponent, canonical.mantissaLt.le, canonical.exponentGe,
      rfl⟩

/-- A double that is unpacked and packed again. -/
theorem Represents.pack_unpack {float : Float} {x : ℝ}
    (represents : Represents float x) :
    Represents (.ofModel (.pack float.toModel.unpack)) x := by
  cases represents with
  | zero unpacked =>
    rw [unpacked]
    exact .zero (unpack_pack_zero .positive)
  | @finite mantissa exponent positive unpacked =>
    obtain ⟨canonical, exponentLe⟩ := canonical_of_unpack_eq unpacked
    rw [unpacked]
    refine @Represents.finite _ _ _ positive ?_
    exact unpack_pack_finite .positive positive canonical exponentLe

/-! ## Differences -/

/-- A magnitude moved to a smaller exponent. -/
theorem decreaseExponent_value {mantissa : ℕ} {exponent smaller : ℤ}
    (le : smaller ≤ exponent) :
    ((decreaseExponent mantissa exponent smaller).1 : ℝ) * (2 : ℝ) ^ smaller =
      (mantissa : ℝ) * (2 : ℝ) ^ exponent := by
  obtain ⟨amount, amountEq⟩ : ∃ amount, (exponent - smaller).toNat = amount :=
    ⟨_, rfl⟩
  have exponentEq : exponent = (amount : ℤ) + smaller := by omega
  simp only [decreaseExponent, amountEq, Nat.shiftLeft_eq]
  rw [exponentEq, zpow_add₀ two_ne_zero, zpow_natCast]
  push_cast
  ring

/-- Two finite doubles are subtracted as integers under one exponent. -/
theorem Represents.sub_eq_normalize {a b : Float} {x y : ℝ}
    (left : Represents a x) (right : Represents b y) (xPos : 0 < x)
    (yPos : 0 < y) :
    ∃ (n n' : ℕ) (exponent : ℤ), (n : ℝ) * (2 : ℝ) ^ exponent = x ∧
      (n' : ℝ) * (2 : ℝ) ^ exponent = y ∧
      UnpackedFloat.sub Format.binary64 a.toModel.unpack b.toModel.unpack =
        UnpackedFloat.normalize Format.binary64 ((n : ℤ) - n') exponent
          .positive := by
  obtain ⟨m, e, mPos, leftUnpacked, xEq, -⟩ := left.components xPos
  obtain ⟨m', e', mPos', rightUnpacked, yEq, -⟩ := right.components yPos
  refine ⟨_, _, min e e', xEq ▸ decreaseExponent_value (min_le_left e e'),
    yEq ▸ decreaseExponent_value (min_le_right e e'), ?_⟩
  rw [leftUnpacked, rightUnpacked]
  rfl

theorem Represents.sub {a b : Float} {x y : ℝ} (left : Represents a x)
    (right : Represents b y) (lt : y < x) (inRange : InRange (x - y)) :
    Represents (a - b) (roundMagnitude (x - y)) := by
  have xPos : 0 < x := right.nonneg.trans_lt lt
  change Represents (.ofModel (.pack (UnpackedFloat.sub Format.binary64
    a.toModel.unpack b.toModel.unpack))) _
  rcases right.nonneg.eq_or_lt with yZero | yPos
  · obtain ⟨m, e, mPos, leftUnpacked, -, -⟩ := left.components xPos
    have same : UnpackedFloat.sub Format.binary64 a.toModel.unpack
        b.toModel.unpack = a.toModel.unpack := by
      rw [leftUnpacked, right.unpack_eq_zero yZero.symm]
      rfl
    rw [same, ← yZero, sub_zero, left.representable.roundMagnitude_eq]
    exact left.pack_unpack
  · obtain ⟨n, n', exponent, value, value', subEq⟩ :=
      left.sub_eq_normalize right xPos yPos
    have less : n' < n := by
      rw [← value, ← value'] at lt
      exact_mod_cast lt_of_mul_lt_mul_right lt (two_zpow_pos _).le
    have differenceEq : ((n - n' : ℕ) : ℝ) * (2 : ℝ) ^ exponent = x - y := by
      rw [Nat.cast_sub less.le, sub_mul, value, value']
    have compareEq : compare ((n : ℤ) - n') 0 = .gt :=
      compare_gt_iff_gt.mpr (by omega)
    rw [subEq, ← differenceEq]
    simp only [UnpackedFloat.normalize, compareEq, Int.toNat_sub]
    exact represents_round (by omega) (by rwa [differenceEq])

theorem Represents.sub_self {a b : Float} {x : ℝ} (left : Represents a x)
    (right : Represents b x) : Represents (a - b) 0 := by
  apply Represents.zero
  change (Float.Model.pack (UnpackedFloat.sub Format.binary64 a.toModel.unpack
    b.toModel.unpack)).unpack = _
  rcases left.nonneg.eq_or_lt with xZero | xPos
  · rw [left.unpack_eq_zero xZero.symm, right.unpack_eq_zero xZero.symm]
    exact unpack_pack_zero .positive
  · obtain ⟨n, n', exponent, value, value', subEq⟩ :=
      left.sub_eq_normalize right xPos xPos
    have same : n = n' := by
      have := mul_right_cancel₀ (two_zpow_pos _).ne' (value.trans value'.symm)
      exact_mod_cast this
    rw [subEq, same, Int.sub_self]
    exact unpack_pack_zero .positive

/-! ## Integral and fractional parts -/

/-- The greatest integer below a magnitude with a negative exponent. -/
theorem floor_magnitude (mantissa power : ℕ) :
    ⌊(mantissa : ℝ) * (2 : ℝ) ^ (-(power : ℤ))⌋ =
      (mantissa / 2 ^ power : ℕ) := by
  have quotient := Int.floor_div_natCast (mantissa : ℝ) (2 ^ power)
  rw [Int.floor_natCast] at quotient
  rw [zpow_neg, zpow_natCast, ← div_eq_mul_inv]
  exact_mod_cast quotient

/-- What is left of a magnitude with a negative exponent above its floor. -/
theorem fract_magnitude (mantissa power : ℕ) :
    Int.fract ((mantissa : ℝ) * (2 : ℝ) ^ (-(power : ℤ))) =
      ((mantissa % 2 ^ power : ℕ) : ℝ) * (2 : ℝ) ^ (-(power : ℤ)) := by
  have split : (mantissa : ℝ) = (2 : ℝ) ^ power * (mantissa / 2 ^ power : ℕ) +
      (mantissa % 2 ^ power : ℕ) := by
    exact_mod_cast (Nat.div_add_mod mantissa (2 ^ power)).symm
  rw [Int.fract, floor_magnitude, Int.cast_natCast, zpow_neg, zpow_natCast]
  nth_rewrite 1 [split]
  field_simp
  ring

/-- A magnitude without a negative exponent is an integer. -/
theorem floor_magnitude_of_nonneg (mantissa power : ℕ) :
    (⌊(mantissa : ℝ) * (2 : ℝ) ^ (power : ℤ)⌋ : ℝ) =
      (mantissa : ℝ) * (2 : ℝ) ^ (power : ℤ) := by
  rw [zpow_natCast]
  exact_mod_cast congrArg (Int.cast (R := ℝ))
    (Int.floor_intCast (R := ℝ) ((mantissa : ℤ) * 2 ^ power))

theorem Represents.floor {float : Float} {x : ℝ}
    (represents : Represents float x) : Represents (floor float) ⌊x⌋ := by
  unfold Binary64.floor roundIntegral
  cases represents with
  | zero unpacked =>
    rw [unpacked]
    simpa using Represents.zero unpacked
  | @finite mantissa exponent positive unpacked =>
    have mantissaLt := (canonical_of_unpack_eq unpacked).1.mantissaLt
    rw [unpacked]
    simp only [show (Sign.positive == Sign.negative) = false from rfl,
      Bool.false_eq_true, if_false]
    split_ifs with integral
    · obtain ⟨power, rfl⟩ := Int.eq_ofNat_of_zero_le integral
      rw [floor_magnitude_of_nonneg]
      exact .finite unpacked
    · obtain ⟨power, rfl⟩ := Int.exists_eq_neg_ofNat (not_le.mp integral).le
      rw [floor_magnitude]
      simp only [neg_neg, Int.toNat_natCast, Int.cast_natCast]
      exact represents_round_exact ((Nat.div_le_self _ _).trans mantissaLt.le)

/-- The fractional part of a double is again a double. -/
theorem Represents.representable_fract {float : Float} {x : ℝ}
    (represents : Represents float x) (positive : 0 < Int.fract x) :
    Representable (Int.fract x) ∧ InRange (Int.fract x) := by
  cases represents with
  | zero => simp at positive
  | @finite mantissa exponent _ unpacked =>
    have canonical := (canonical_of_unpack_eq unpacked).1
    rcases le_or_gt 0 exponent with integral | negative
    · obtain ⟨power, rfl⟩ := Int.eq_ofNat_of_zero_le integral
      have integer : Int.fract ((mantissa : ℝ) * (2 : ℝ) ^ (power : ℤ)) = 0 :=
        sub_eq_zero_of_eq (floor_magnitude_of_nonneg mantissa power).symm
      exact absurd integer positive.ne'
    · obtain ⟨power, rfl⟩ := Int.exists_eq_neg_ofNat negative.le
      have lt := Int.fract_lt_one ((mantissa : ℝ) * (2 : ℝ) ^ (-(power : ℤ)))
      rw [fract_magnitude] at positive lt ⊢
      have remainderPos : (1 : ℝ) ≤ (mantissa % 2 ^ power : ℕ) := by
        have := pos_of_mul_pos_left positive (two_zpow_pos _).le
        exact_mod_cast this
      refine ⟨⟨_, _, ?_, canonical.exponentGe, rfl⟩, ?_, ?_⟩
      · exact (Nat.mod_le _ _).trans canonical.mantissaLt.le
      · calc
          (2 : ℝ) ^ (-1074 : ℤ) ≤ (2 : ℝ) ^ (-(power : ℤ)) :=
            zpow_le_zpow_right₀ one_le_two canonical.exponentGe
          _ ≤ ((mantissa % 2 ^ power : ℕ) : ℝ) * (2 : ℝ) ^ (-(power : ℤ)) :=
            le_mul_of_one_le_left (two_zpow_pos _).le remainderPos
      · exact lt.le.trans (one_le_zpow₀ one_le_two (by norm_num))

/-- Taking its integral part from a double is exact. -/
theorem Represents.sub_floor {a b : Float} {x : ℝ} (left : Represents a x)
    (right : Represents b ⌊x⌋) : Represents (a - b) (Int.fract x) := by
  rcases (Int.fract_nonneg x).eq_or_lt with integral | positive
  · rw [← integral]
    have same : (⌊x⌋ : ℝ) = x := by
      have := Int.self_sub_floor x
      linarith
    rw [same] at right
    exact left.sub_self right
  · obtain ⟨representable, inRange⟩ := left.representable_fract positive
    have less : (⌊x⌋ : ℝ) < x := sub_pos.mp positive
    have difference := left.sub right less inRange
    rwa [Int.self_sub_floor, representable.roundMagnitude_eq] at difference

/-- The least integer that is not below a double. -/
theorem Represents.truncate_ceil {float : Float} {x : ℝ}
    (represents : Represents float x) :
    Binary64.truncate (Binary64.ceil float) = some ⌈x⌉ := by
  rcases le_or_gt x ((2 : ℝ) ^ 53) with le | gt
  · rw [(represents.ceil le).truncate, Int.floor_intCast]
  · cases represents with
    | zero => exact absurd gt (by norm_num)
    | @finite mantissa exponent positive unpacked =>
      have mantissaLt := (canonical_of_unpack_eq unpacked).1.mantissaLt
      have integral : 0 ≤ exponent := by
        by_contra negative
        have small : (2 : ℝ) ^ exponent ≤ 1 :=
          zpow_le_one_of_nonpos₀ one_le_two (not_le.mp negative).le
        have : (mantissa : ℝ) < (2 : ℝ) ^ 53 := by exact_mod_cast mantissaLt
        exact absurd gt (not_lt.mpr
          ((mul_le_of_le_one_right (Nat.cast_nonneg _) small).trans this.le))
      have same : Binary64.ceil float = float := by
        simp [Binary64.ceil, roundIntegral, unpacked, integral]
      obtain ⟨power, rfl⟩ := Int.eq_ofNat_of_zero_le integral
      rw [same, (Represents.finite unpacked).truncate]
      have whole := floor_magnitude_of_nonneg mantissa power
      rw [← whole, Int.ceil_intCast, Int.floor_intCast]

/-! ## Powers of two -/

/-- Scaling by a power of two is exact. -/
theorem Represents.mul_two_pow {a b : Float} {x : ℝ} {power : ℕ}
    (left : Represents a x) (right : Represents b ((2 : ℝ) ^ power))
    (upper : x * (2 : ℝ) ^ power ≤ (2 : ℝ) ^ (1023 : ℤ)) :
    Represents (a * b) (x * (2 : ℝ) ^ power) := by
  have powerPos : (0 : ℝ) < (2 : ℝ) ^ power := by positivity
  rcases left.nonneg.eq_or_lt with xZero | xPos
  · rw [← xZero, zero_mul]
    obtain ⟨m, e, mPos, rightUnpacked, -, -⟩ := right.components powerPos
    apply Represents.zero
    change (Float.Model.pack (UnpackedFloat.mul Format.binary64
      a.toModel.unpack b.toModel.unpack)).unpack = _
    rw [left.unpack_eq_zero xZero.symm, rightUnpacked]
    exact unpack_pack_zero .positive
  · obtain ⟨m, e, mPos, -, xEq, canonical⟩ := left.components xPos
    have productEq : x * (2 : ℝ) ^ power =
        (m : ℝ) * (2 : ℝ) ^ (e + (power : ℤ)) := by
      rw [xEq, zpow_add₀ two_ne_zero, zpow_natCast, mul_assoc]
    have exponentGe := canonical.exponentGe
    have representable : Representable (x * (2 : ℝ) ^ power) :=
      ⟨m, _, canonical.mantissaLt.le, by omega, productEq⟩
    have mGe : (1 : ℝ) ≤ m := by exact_mod_cast mPos
    have lower : (2 : ℝ) ^ (-1074 : ℤ) ≤ x * (2 : ℝ) ^ power := calc
      (2 : ℝ) ^ (-1074 : ℤ) ≤ (2 : ℝ) ^ (e + (power : ℤ)) :=
        zpow_le_zpow_right₀ one_le_two (by omega)
      _ ≤ (m : ℝ) * (2 : ℝ) ^ (e + (power : ℤ)) :=
        le_mul_of_one_le_left (two_zpow_pos _).le mGe
      _ = x * (2 : ℝ) ^ power := productEq.symm
    have product := left.mul right xPos powerPos ⟨lower, upper⟩
    rwa [representable.roundMagnitude_eq] at product

/-! ## Zeros of either sign -/

/-- A finite double that is not below zero stands for a real number, and a zero
of either sign stands for `0`. -/
inductive Denotes (float : Float) : ℝ → Prop
  | positive {x : ℝ} (represents : Represents float x) : Denotes float x
  | negativeZero (unpacked : float.toModel.unpack = .zero .negative) :
      Denotes float 0

@[simp] theorem unpack_zero : (0.0 : Float).toModel.unpack = .zero .positive :=
  rfl

theorem exists_denotes {float : Float} (finite : truncate float ≠ none)
    (notNegative : ¬float < 0.0) : ∃ x, Denotes float x := by
  unfold truncate at finite
  rw [lt_iff_compare, unpack_zero] at notNegative
  cases unpacked : float.toModel.unpack with
  | zero sign =>
    cases sign with
    | positive => exact ⟨0, .positive (.zero unpacked)⟩
    | negative => exact ⟨0, .negativeZero unpacked⟩
  | finite sign mantissa exponent positive =>
    cases sign with
    | positive => exact ⟨_, .positive (.finite unpacked)⟩
    | negative =>
      rw [unpacked] at notNegative
      exact absurd rfl notNegative
  | infinity sign => simp [unpacked] at finite
  | notANumber => simp [unpacked] at finite

theorem truncate_floor_eq_none {float : Float} (eq : truncate float = none) :
    truncate (floor float) = none := by
  have same : floor float = float := by
    unfold floor roundIntegral
    cases unpacked : float.toModel.unpack with
    | finite => simp [truncate, unpacked] at eq
    | zero => rfl
    | infinity => rfl
    | notANumber => rfl
  rw [same, eq]

theorem truncate_ceil_eq_none {float : Float} (eq : truncate float = none) :
    truncate (ceil float) = none := by
  have same : ceil float = float := by
    unfold ceil roundIntegral
    cases unpacked : float.toModel.unpack with
    | finite => simp [truncate, unpacked] at eq
    | zero => rfl
    | infinity => rfl
    | notANumber => rfl
  rw [same, eq]

namespace Denotes

variable {a b : Float} {x y : ℝ}

theorem nonneg (denotes : Denotes a x) : 0 ≤ x := by
  cases denotes with
  | positive represents => exact represents.nonneg
  | negativeZero => exact le_rfl

theorem not_lt_zero (denotes : Denotes a x) : ¬a < 0.0 := by
  rw [lt_iff_compare, unpack_zero]
  cases denotes with
  | positive represents =>
    cases represents with
    | zero unpacked => simp [unpacked, UnpackedFloat.compare]
    | finite unpacked => simp [unpacked, UnpackedFloat.compare]
  | negativeZero unpacked => simp [unpacked, UnpackedFloat.compare]

theorem truncate (denotes : Denotes a x) : truncate a = some ⌊x⌋ := by
  cases denotes with
  | positive represents => exact represents.truncate
  | negativeZero unpacked => simp [Binary64.truncate, unpacked]

theorem floor (denotes : Denotes a x) : Denotes (floor a) ⌊x⌋ := by
  cases denotes with
  | positive represents => exact .positive represents.floor
  | negativeZero unpacked =>
    have same : Binary64.floor a = a := by
      simp [Binary64.floor, roundIntegral, unpacked]
    rw [same, Int.floor_zero, Int.cast_zero]
    exact .negativeZero unpacked

theorem sub_floor (left : Denotes a x) (right : Represents b ⌊x⌋) :
    Denotes (a - b) (Int.fract x) := by
  cases left with
  | positive represents => exact .positive (represents.sub_floor right)
  | negativeZero unpacked =>
    rw [Int.fract_zero]
    apply negativeZero
    change (Float.Model.pack (UnpackedFloat.sub Format.binary64
      a.toModel.unpack b.toModel.unpack)).unpack = _
    rw [unpacked, right.unpack_eq_zero (by simp)]
    exact unpack_pack_zero .negative

theorem mul_two_pow {power : ℕ} (left : Denotes a x)
    (right : Represents b ((2 : ℝ) ^ power))
    (upper : x * (2 : ℝ) ^ power ≤ (2 : ℝ) ^ (1023 : ℤ)) :
    Denotes (a * b) (x * (2 : ℝ) ^ power) := by
  cases left with
  | positive represents => exact .positive (represents.mul_two_pow right upper)
  | negativeZero unpacked =>
    have powerPos : (0 : ℝ) < (2 : ℝ) ^ power := by positivity
    obtain ⟨m, e, mPos, rightUnpacked, -, -⟩ := right.components powerPos
    rw [zero_mul]
    apply negativeZero
    change (Float.Model.pack (UnpackedFloat.mul Format.binary64
      a.toModel.unpack b.toModel.unpack)).unpack = _
    rw [unpacked, rightUnpacked]
    exact unpack_pack_zero .negative

theorem truncate_ceil (denotes : Denotes a x) :
    Binary64.truncate (Binary64.ceil a) = some ⌈x⌉ := by
  cases denotes with
  | positive represents => exact represents.truncate_ceil
  | negativeZero unpacked =>
    simp [Binary64.ceil, roundIntegral, Binary64.truncate, unpacked]

theorem le_of_not_lt (left : Denotes a x) (right : Denotes b y)
    (notAbove : ¬b < a) : x ≤ y := by
  cases left with
  | negativeZero => exact right.nonneg
  | positive represents =>
    cases right with
    | positive represents' =>
      rw [represents'.lt_iff represents] at notAbove
      exact not_lt.mp notAbove
    | negativeZero unpacked =>
      cases represents with
      | zero => exact le_rfl
      | finite unpacked' =>
        rw [lt_iff_compare, unpacked, unpacked'] at notAbove
        exact absurd rfl notAbove

/-- What is below zero is below each of these. -/
theorem lt_of_lt_zero (denotes : Denotes a x) (negative : b < 0.0) : b < a := by
  rw [lt_iff_compare, unpack_zero] at negative
  rw [lt_iff_compare]
  have cases : (∃ sign, a.toModel.unpack = .zero sign) ∨
      ∃ mantissa exponent positive,
        a.toModel.unpack = .finite .positive mantissa exponent positive := by
    cases denotes with
    | negativeZero unpacked => exact .inl ⟨_, unpacked⟩
    | positive represents =>
      cases represents with
      | zero unpacked => exact .inl ⟨_, unpacked⟩
      | finite unpacked => exact .inr ⟨_, _, _, unpacked⟩
  cases unpacked : b.toModel.unpack with
  | notANumber => simp [unpacked, UnpackedFloat.compare] at negative
  | zero sign => cases sign <;> simp [unpacked, UnpackedFloat.compare] at negative
  | infinity sign =>
    cases sign with
    | positive => simp [unpacked, UnpackedFloat.compare] at negative
    | negative => rcases cases with ⟨_, same⟩ | ⟨_, _, _, same⟩ <;> rw [same] <;> rfl
  | finite sign mantissa exponent positive =>
    cases sign with
    | positive => simp [unpacked, UnpackedFloat.compare] at negative
    | negative => rcases cases with ⟨_, same⟩ | ⟨_, _, _, same⟩ <;> rw [same] <;> rfl

end Denotes

end Binary64
