import VirtualPeople.Binary64.Unpacked

/-!
# Nonnegative doubles and the reals they stand for

`Represents float x` says that `float` is the finite nonnegative double with
value `x`.  Conversion from integers, products, quotients and square roots of
such doubles represent the rounded exact result, comparison is comparison of
values, and conversion back to an integer is the floor.
-/

namespace Binary64

open Float.Model
open Float.Model.UnpackedFloat

/-- A finite double without a minus sign stands for a real number. -/
inductive Represents (float : Float) : ℝ → Prop
  | zero (unpacked : float.toModel.unpack = .zero .positive) :
      Represents float 0
  | finite {mantissa : ℕ} {exponent : ℤ} {positive : 0 < mantissa}
      (unpacked : float.toModel.unpack =
        .finite .positive mantissa exponent positive) :
      Represents float ((mantissa : ℝ) * (2 : ℝ) ^ exponent)

theorem magnitude_pos {mantissa : ℕ} (positive : 0 < mantissa)
    (exponent : ℤ) : (0 : ℝ) < (mantissa : ℝ) * (2 : ℝ) ^ exponent :=
  mul_pos (by exact_mod_cast positive) (two_zpow_pos exponent)

theorem Represents.nonneg {float : Float} {x : ℝ}
    (represents : Represents float x) : 0 ≤ x := by
  cases represents with
  | zero => exact le_rfl
  | finite => exact mul_nonneg (Nat.cast_nonneg _) (two_zpow_pos _).le

/-- The real number of a double whose mantissa and exponent are known. -/
theorem Represents.of_unpack {float : Float} {x : ℝ} (mantissa : ℕ)
    (exponent : ℤ) (positive : 0 < mantissa)
    (unpacked : float.toModel.unpack =
      .finite .positive mantissa exponent positive)
    (value : (mantissa : ℝ) * (2 : ℝ) ^ exponent = x) :
    Represents float x := by
  rw [← value]
  exact .finite unpacked

theorem Represents.unpack_eq_zero {float : Float} {x : ℝ}
    (represents : Represents float x) (xZero : x = 0) :
    float.toModel.unpack = .zero .positive := by
  cases represents with
  | zero unpacked => exact unpacked
  | finite => exact absurd xZero (magnitude_pos ‹_› _).ne'

/-- The components of a double with a positive value. -/
theorem Represents.components {float : Float} {x : ℝ}
    (represents : Represents float x) (xPos : 0 < x) :
    ∃ (mantissa : ℕ) (exponent : ℤ) (positive : 0 < mantissa),
      float.toModel.unpack = .finite .positive mantissa exponent positive ∧
        x = (mantissa : ℝ) * (2 : ℝ) ^ exponent ∧
        Canonical mantissa exponent := by
  cases represents with
  | zero => exact absurd xPos (lt_irrefl 0)
  | finite unpacked =>
    exact ⟨_, _, _, unpacked, rfl, (canonical_of_unpack_eq unpacked).1⟩

/-! ## Comparison -/

theorem magnitude_lt_of_exponent_lt {mantissa mantissa' : ℕ}
    {exponent exponent' : ℤ} (canonical : Canonical mantissa exponent)
    (canonical' : Canonical mantissa' exponent')
    (exponentLt : exponent < exponent') :
    (mantissa : ℝ) * (2 : ℝ) ^ exponent <
      (mantissa' : ℝ) * (2 : ℝ) ^ exponent' := by
  have mantissaLt : (mantissa : ℝ) < (2 : ℝ) ^ (53 : ℤ) := by
    exact_mod_cast canonical.mantissaLt
  have mantissaGe : (2 : ℝ) ^ (52 : ℤ) ≤ (mantissa' : ℝ) := by
    have := canonical.exponentGe
    exact_mod_cast canonical'.normal.resolve_right (by omega)
  calc
    (mantissa : ℝ) * (2 : ℝ) ^ exponent <
        (2 : ℝ) ^ (53 : ℤ) * (2 : ℝ) ^ exponent := by gcongr
    _ = (2 : ℝ) ^ (53 + exponent) := (zpow_add₀ two_ne_zero _ _).symm
    _ ≤ (2 : ℝ) ^ (52 + exponent') :=
      zpow_le_zpow_right₀ one_le_two (by omega)
    _ = (2 : ℝ) ^ (52 : ℤ) * (2 : ℝ) ^ exponent' := zpow_add₀ two_ne_zero _ _
    _ ≤ (mantissa' : ℝ) * (2 : ℝ) ^ exponent' := by gcongr

/-- Canonical components compare as the magnitudes they stand for. -/
theorem compare_components {mantissa mantissa' : ℕ}
    {exponent exponent' : ℤ} (canonical : Canonical mantissa exponent)
    (canonical' : Canonical mantissa' exponent') :
    (compare exponent exponent').then (compare mantissa mantissa') =
      compare ((mantissa : ℝ) * (2 : ℝ) ^ exponent)
        ((mantissa' : ℝ) * (2 : ℝ) ^ exponent') := by
  rcases lt_trichotomy exponent exponent' with less | equal | greater
  · rw [compare_lt_iff_lt.mpr less, compare_lt_iff_lt.mpr
      (magnitude_lt_of_exponent_lt canonical canonical' less)]
    rfl
  · subst equal
    rw [compare_eq_iff_eq.mpr rfl, Ordering.eq_then]
    rcases lt_trichotomy mantissa mantissa' with less | equal | greater
    · rw [compare_lt_iff_lt.mpr less, compare_lt_iff_lt.mpr
        (mul_lt_mul_of_pos_right (by exact_mod_cast less) (two_zpow_pos _))]
    · rw [equal, compare_eq_iff_eq.mpr rfl, compare_eq_iff_eq.mpr rfl]
    · rw [compare_gt_iff_gt.mpr greater, compare_gt_iff_gt.mpr
        (mul_lt_mul_of_pos_right (by exact_mod_cast greater)
          (two_zpow_pos _))]
  · rw [compare_gt_iff_gt.mpr greater, compare_gt_iff_gt.mpr
      (magnitude_lt_of_exponent_lt canonical' canonical greater)]
    rfl

theorem Represents.compare_eq {a b : Float} {x y : ℝ}
    (left : Represents a x) (right : Represents b y) :
    Float.Model.compare a.toModel b.toModel = some (compare x y) := by
  unfold Float.Model.compare
  cases left with
  | zero leftUnpacked =>
    cases right with
    | zero rightUnpacked =>
      rw [leftUnpacked, rightUnpacked, compare_eq_iff_eq.mpr rfl]
      rfl
    | finite rightUnpacked =>
      rw [leftUnpacked, rightUnpacked,
        compare_lt_iff_lt.mpr (magnitude_pos ‹_› _)]
      rfl
  | finite leftUnpacked =>
    cases right with
    | zero rightUnpacked =>
      rw [leftUnpacked, rightUnpacked,
        compare_gt_iff_gt.mpr (magnitude_pos ‹_› _)]
      rfl
    | finite rightUnpacked =>
      rw [leftUnpacked, rightUnpacked, ← compare_components
        (canonical_of_unpack_eq leftUnpacked).1
        (canonical_of_unpack_eq rightUnpacked).1]
      rfl

theorem Represents.lt_iff {a b : Float} {x y : ℝ}
    (left : Represents a x) (right : Represents b y) : a < b ↔ x < y := by
  change decide ((Float.Model.compare a.toModel b.toModel == some .lt) = true) =
    true ↔ _
  rw [left.compare_eq right, decide_eq_true_iff, beq_iff_eq, Option.some_inj,
    compare_lt_iff_lt]

theorem Represents.not_lt_self {float : Float} {x : ℝ}
    (represents : Represents float x) : ¬float < float := by
  rw [represents.lt_iff represents]
  exact lt_irrefl x

/-- A double stands for one number. -/
theorem Represents.unique {float : Float} {x y : ℝ}
    (left : Represents float x) (right : Represents float y) : x = y :=
  le_antisymm
    (not_lt.mp fun lt => left.not_lt_self ((right.lt_iff left).mpr lt))
    (not_lt.mp fun lt => left.not_lt_self ((left.lt_iff right).mpr lt))

theorem lt_iff_compare {a b : Float} :
    a < b ↔ a.toModel.unpack.compare b.toModel.unpack = some .lt := by
  change decide ((a.toModel.unpack.compare b.toModel.unpack == some .lt) =
    true) = true ↔ _
  rw [decide_eq_true_iff, beq_iff_eq]

/-- Whatever is below a double that is not negative is below every larger one,
be it a number of any sign or an infinity. -/
theorem Represents.lt_of_lt {a b c : Float} {x y : ℝ}
    (left : Represents a x) (right : Represents b y) (le : x ≤ y)
    (lt : c < a) : c < b := by
  cases unpacked : c.toModel.unpack with
  | finite sign mantissa exponent positive =>
    cases sign with
    | positive =>
      have represents : Represents c _ := .finite unpacked
      rw [represents.lt_iff right]
      exact lt_of_lt_of_le ((represents.lt_iff left).mp lt) le
    | negative =>
      rw [lt_iff_compare, unpacked]
      cases right with
      | zero rightUnpacked =>
        rw [rightUnpacked]
        rfl
      | finite rightUnpacked =>
        rw [rightUnpacked]
        rfl
  | zero sign =>
    rw [lt_iff_compare, unpacked] at lt ⊢
    cases left with
    | zero leftUnpacked =>
      rw [leftUnpacked] at lt
      simp [UnpackedFloat.compare] at lt
    | finite leftUnpacked =>
      have yPos : 0 < y := lt_of_lt_of_le (magnitude_pos ‹_› _) le
      obtain ⟨_, _, _, rightUnpacked, -, -⟩ := right.components yPos
      rw [rightUnpacked]
      rfl
  | notANumber =>
    rw [lt_iff_compare, unpacked] at lt
    contradiction
  | infinity sign =>
    rw [lt_iff_compare, unpacked] at lt ⊢
    cases sign with
    | positive => cases left <;> simp_all [UnpackedFloat.compare]
    | negative =>
      cases right with
      | zero rightUnpacked =>
        rw [rightUnpacked]
        rfl
      | finite rightUnpacked =>
        rw [rightUnpacked]
        rfl

/-- Two doubles that represent one number are above the same doubles. -/
theorem Represents.lt_congr {a b c : Float} {x : ℝ} (left : Represents a x)
    (right : Represents b x) : c < a ↔ c < b :=
  ⟨left.lt_of_lt right le_rfl, right.lt_of_lt left le_rfl⟩

/-! ## Rounded results -/

/-- The range in which no exponent can leave the format. -/
structure InRange (x : ℝ) : Prop where
  lower : (2 : ℝ) ^ (-1074 : ℤ) ≤ x
  upper : x ≤ (2 : ℝ) ^ (1023 : ℤ)

theorem InRange.of_one_le {x : ℝ} (lower : 1 ≤ x)
    (upper : x ≤ (2 : ℝ) ^ (1023 : ℤ)) : InRange x :=
  ⟨(zpow_le_one_of_nonpos₀ one_le_two (by norm_num)).trans lower, upper⟩

theorem InRange.of_le_two_pow {x : ℝ} {exponent : ℕ} (lower : 1 ≤ x)
    (upper : x ≤ 2 ^ exponent) (le : exponent ≤ 1023) : InRange x := by
  refine .of_one_le lower (upper.trans ?_)
  rw [← zpow_natCast]
  exact zpow_le_zpow_right₀ one_le_two (by exact_mod_cast le)

theorem InRange.of_nat {n : ℕ} (positive : 0 < n) (lt : n < 2 ^ 64) :
    InRange n := by
  refine .of_one_le (by exact_mod_cast positive) ?_
  calc
    (n : ℝ) ≤ (2 : ℝ) ^ (64 : ℤ) := by exact_mod_cast lt.le
    _ ≤ (2 : ℝ) ^ (1023 : ℤ) := zpow_le_zpow_right₀ one_le_two (by norm_num)

/-- What the rounding step packs is the double nearest to the exact value. -/
theorem represents_roundWithAccuracy {mantissa : ℕ} {exponent : ℤ}
    {accuracy : Accuracy} {quotient : ℝ} (positive : 0 < mantissa)
    (describes :
      Describes (.ofMantissaAndAccuracy mantissa accuracy) quotient)
    (fine : exponent ≤ ulpExponent (quotient * (2 : ℝ) ^ exponent))
    (inRange : InRange (quotient * (2 : ℝ) ^ exponent)) :
    Represents (.ofModel (.pack (roundWithAccuracy Format.binary64 .positive
        mantissa exponent accuracy)))
      (roundMagnitude (quotient * (2 : ℝ) ^ exponent)) := by
  obtain ⟨mantissa', exponent', positive', roundEq, canonical, valueEq⟩ :=
    roundWithAccuracy_eq .positive positive describes fine inRange.lower
  have bound : (mantissa' : ℝ) * (2 : ℝ) ^ exponent' ≤ (2 : ℝ) ^ (1023 : ℤ) :=
    valueEq.trans_le ((Representable.two_zpow (by norm_num)).roundMagnitude_le
      (lt_of_lt_of_le (two_zpow_pos _) inRange.lower) inRange.upper)
  have exponentLe : exponent' ≤ 971 := by
    rcases canonical.normal with normal | subnormal
    · by_contra large
      have normalCast : (2 : ℝ) ^ (52 : ℤ) ≤ (mantissa' : ℝ) := by
        exact_mod_cast normal
      have : (2 : ℝ) ^ (1023 : ℤ) < (2 : ℝ) ^ (1023 : ℤ) := calc
        (2 : ℝ) ^ (1023 : ℤ) < (2 : ℝ) ^ (52 + exponent') :=
          zpow_lt_zpow_right₀ one_lt_two (by omega)
        _ = (2 : ℝ) ^ (52 : ℤ) * (2 : ℝ) ^ exponent' :=
          zpow_add₀ two_ne_zero _ _
        _ ≤ (mantissa' : ℝ) * (2 : ℝ) ^ exponent' := by gcongr
        _ ≤ (2 : ℝ) ^ (1023 : ℤ) := bound
      exact absurd this (lt_irrefl _)
    · omega
  rw [← valueEq]
  refine @Represents.finite _ _ _ positive' ?_
  rw [roundEq]
  exact unpack_pack_finite .positive positive' canonical exponentLe

theorem ulpExponent_of_log {x : ℝ} {logarithm : ℤ}
    (logEq : Int.log 2 x = logarithm) :
    ulpExponent x = max (logarithm - 52) (-1074) := by
  unfold ulpExponent
  rw [logEq]

/-- An exact magnitude rounded to the format. -/
theorem represents_round {n : ℕ} {exponent : ℤ} (positive : 0 < n)
    (inRange : InRange ((n : ℝ) * (2 : ℝ) ^ exponent)) :
    Represents (.ofModel
        (.pack (UnpackedFloat.round Format.binary64 .positive n exponent)))
      (roundMagnitude ((n : ℝ) * (2 : ℝ) ^ exponent)) := by
  have logEq : Int.log 2 ((n : ℝ) * (2 : ℝ) ^ exponent) = n.log2 + exponent :=
    (describes_exact n).log_eq positive
  obtain ⟨target, targetEq⟩ : ∃ target,
      Format.binary64.targetExponent (totalExponent n exponent) = target :=
    ⟨_, rfl⟩
  have targetUlp : target = ulpExponent ((n : ℝ) * (2 : ℝ) ^ exponent) := by
    rw [← targetEq, targetExponent_eq, ulpExponent_of_log logEq]
    unfold totalExponent
    congr 1
    ring
  obtain ⟨amount, amountEq⟩ : ∃ amount, (exponent - target).toNat = amount :=
    ⟨_, rfl⟩
  have valueEq : ((n * 2 ^ amount : ℕ) : ℝ) *
      (2 : ℝ) ^ (exponent - (amount : ℤ)) = (n : ℝ) * (2 : ℝ) ^ exponent := by
    rw [zpow_sub₀ two_ne_zero, zpow_natCast]
    push_cast
    field_simp
  have modelEq : UnpackedFloat.round Format.binary64 .positive n exponent =
      roundWithAccuracy Format.binary64 .positive (n * 2 ^ amount)
        (exponent - (amount : ℤ)) .exact := by
    simp only [UnpackedFloat.round, targetEq, decreaseExponent, amountEq,
      Nat.shiftLeft_eq]
  rw [modelEq]
  have rounded := @represents_roundWithAccuracy _ (exponent - (amount : ℤ)) _ _
    (Nat.mul_pos positive (Nat.two_pow_pos amount))
    (describes_exact (n * 2 ^ amount)) (by rw [valueEq]; omega)
    (by rw [valueEq]; exact inRange)
  rwa [valueEq] at rounded

/-- A positive integer rounded to the format. -/
theorem represents_round_zero {n : ℕ} (positive : 0 < n)
    (inRange : InRange n) :
    Represents
      (.ofModel (.pack (UnpackedFloat.round Format.binary64 .positive n 0)))
      (roundMagnitude (n : ℝ)) := by
  have rounded := @represents_round n 0 positive (by simpa using inRange)
  simpa using rounded

/-- An integer of 53 bits is in the format. -/
theorem represents_round_exact {n : ℕ} (le : n ≤ 2 ^ 53) :
    Represents
      (.ofModel (.pack (UnpackedFloat.round Format.binary64 .positive n 0)))
      (n : ℝ) := by
  rcases Nat.eq_zero_or_pos n with rfl | positive
  · exact_mod_cast Represents.zero rfl
  · have rounded := represents_round_zero positive
      (.of_nat positive (le.trans_lt (by norm_num)))
    rwa [(Representable.natCast le).roundMagnitude_eq] at rounded

/-- Conversion of a positive integer. -/
theorem represents_ofNat {n : ℕ} (positive : 0 < n) (inRange : InRange n) :
    Represents (.ofModel (.ofNat n)) (roundMagnitude (n : ℝ)) := by
  have compareEq : compare (n : ℤ) 0 = .gt :=
    compare_gt_iff_gt.mpr (by exact_mod_cast positive)
  have modelEq : Float.Model.ofNat n =
      .pack (UnpackedFloat.round Format.binary64 .positive n 0) := by
    unfold Float.Model.ofNat UnpackedFloat.ofNat UnpackedFloat.ofInt
      UnpackedFloat.normalize
    simp only [compareEq, Int.toNat_natCast]
  rw [modelEq]
  exact represents_round_zero positive inRange

/-- The conversion of an integer, to the nearest double. -/
def ofInt (n : ℤ) : Float :=
  .ofModel (.ofInt n)

theorem represents_ofInt {n : ℕ} (positive : 0 < n) (inRange : InRange n) :
    Represents (ofInt n) (roundMagnitude (n : ℝ)) :=
  represents_ofNat positive inRange

theorem represents_toFloat {n : UInt64} (positive : 0 < n.toNat) :
    Represents n.toFloat (roundMagnitude (n.toNat : ℝ)) :=
  represents_ofNat positive (.of_nat positive n.toNat_lt)

/-- Integers of at most 53 bits are converted exactly. -/
theorem represents_toFloat_exact {n : UInt64} (le : n.toNat ≤ 2 ^ 53) :
    Represents n.toFloat n.toNat := by
  rcases Nat.eq_zero_or_pos n.toNat with zero | positive
  · rw [zero]
    have : n = 0 := UInt64.toNat_inj.mp zero
    subst this
    simpa using @Represents.zero (UInt64.toFloat 0) rfl
  · have rounded := represents_toFloat positive
    rwa [(Representable.natCast le).roundMagnitude_eq] at rounded

theorem Represents.mul {a b : Float} {x y : ℝ} (left : Represents a x)
    (right : Represents b y) (xPos : 0 < x) (yPos : 0 < y)
    (inRange : InRange (x * y)) :
    Represents (a * b) (roundMagnitude (x * y)) := by
  obtain ⟨m, e, mPos, leftUnpacked, xEq, leftCanonical⟩ :=
    left.components xPos
  obtain ⟨m', e', mPos', rightUnpacked, yEq, rightCanonical⟩ :=
    right.components yPos
  have productEq : ((m * m' : ℕ) : ℝ) * (2 : ℝ) ^ (e + e') = x * y := by
    rw [xEq, yEq, zpow_add₀ two_ne_zero]
    push_cast
    ring
  have modelEq : a * b = .ofModel (.pack (roundWithAccuracy Format.binary64
      .positive (m * m') (e + e') .exact)) := by
    change Float.ofModel (.pack (UnpackedFloat.mul _ a.toModel.unpack
      b.toModel.unpack)) = _
    rw [leftUnpacked, rightUnpacked]
    rfl
  rw [modelEq, ← productEq]
  refine represents_roundWithAccuracy (Nat.mul_pos mPos mPos')
    (describes_exact _) ?_ (by rwa [productEq])
  -- Two subnormal factors would leave the range; one normal factor gives the
  -- product all the bits the grid asks for.
  have logEq := @Describes.log_eq _ (e + e') _ _ (Nat.mul_pos mPos mPos')
    (describes_exact (m * m'))
  rw [ulpExponent_of_log logEq]
  have exponentGe := leftCanonical.exponentGe
  have exponentGe' := rightCanonical.exponentGe
  have logGe : 52 ≤ (m * m').log2 ∨ e + e' ≤ -1074 := by
    rcases leftCanonical.normal with normal | subnormal
    · left
      exact (Nat.le_log2 (Nat.mul_pos mPos mPos').ne').mpr
        (normal.trans (Nat.le_mul_of_pos_right m mPos'))
    · rcases rightCanonical.normal with normal' | subnormal'
      · left
        exact (Nat.le_log2 (Nat.mul_pos mPos mPos').ne').mpr
          (normal'.trans (Nat.le_mul_of_pos_left m' mPos))
      · right
        omega
  omega

/-- The remainder of an integer division places the exact quotient. -/
theorem describes_divide {numerator denominator : ℕ}
    (denominatorPos : 0 < denominator) :
    Describes (.ofMantissaAndAccuracy (numerator / denominator)
        (accuracyOfFraction (numerator % denominator) denominator))
      ((numerator : ℝ) / denominator) := by
  have denominatorCast : (0 : ℝ) < denominator := by
    exact_mod_cast denominatorPos
  have split : (numerator : ℝ) / denominator =
      (numerator / denominator : ℕ) +
        ((numerator % denominator : ℕ) : ℝ) / denominator := by
    rw [eq_comm, ← eq_sub_iff_add_eq', div_eq_iff denominatorCast.ne',
      sub_mul, div_mul_cancel₀ _ denominatorCast.ne', eq_sub_iff_add_eq]
    exact_mod_cast Nat.mod_add_div' numerator denominator
  have remainderLt : ((numerator % denominator : ℕ) : ℝ) < denominator := by
    exact_mod_cast Nat.mod_lt numerator denominatorPos
  unfold accuracyOfFraction
  split_ifs with exact
  · rw [split, exact]
    simpa using describes_exact (numerator / denominator)
  · have remainderPos : (0 : ℝ) < ((numerator % denominator : ℕ) : ℝ) := by
      exact_mod_cast Nat.pos_of_ne_zero exact
    apply describes_inexact
    · rw [split]
      exact lt_add_of_pos_right _ (div_pos remainderPos denominatorCast)
    · rw [split]
      gcongr
      exact (div_lt_one denominatorCast).mpr remainderLt
    · rw [split, compare_lt_iff_lt, add_lt_add_iff_left,
        div_lt_div_iff₀ denominatorCast two_pos, one_mul, mul_comm]
      exact_mod_cast Iff.rfl
    · rw [split, compare_eq_iff_eq, add_right_inj,
        div_eq_div_iff denominatorCast.ne' two_ne_zero, one_mul, mul_comm]
      exact_mod_cast Iff.rfl

/-- The logarithm of a quotient is the difference of the logarithms, or one
less. -/
theorem log_sub_log_sub_one_le {x y : ℝ} (xPos : 0 < x) (yPos : 0 < y) :
    Int.log 2 x - Int.log 2 y - 1 ≤ Int.log 2 (x / y) := by
  rw [← Int.zpow_le_iff_le_log (by norm_num) (div_pos xPos yPos)]
  push_cast
  rw [le_div_iff₀ yPos]
  calc
    (2 : ℝ) ^ (Int.log 2 x - Int.log 2 y - 1) * y ≤
        (2 : ℝ) ^ (Int.log 2 x - Int.log 2 y - 1) *
          (2 : ℝ) ^ (Int.log 2 y + 1) := by
      have : y < (2 : ℝ) ^ (Int.log 2 y + 1) := by
        exact_mod_cast Int.lt_zpow_succ_log_self (b := 2) (by norm_num) y
      gcongr
    _ = (2 : ℝ) ^ Int.log 2 x := by
      rw [← zpow_add₀ two_ne_zero]
      congr 1
      ring
    _ ≤ x := by
      exact_mod_cast Int.zpow_log_le_self (b := 2) (by norm_num) xPos

theorem Represents.div {a b : Float} {x y : ℝ} (left : Represents a x)
    (right : Represents b y) (xPos : 0 < x) (yPos : 0 < y)
    (inRange : InRange (x / y)) :
    Represents (a / b) (roundMagnitude (x / y)) := by
  obtain ⟨m, e, mPos, leftUnpacked, xEq, -⟩ := left.components xPos
  obtain ⟨m', e', mPos', rightUnpacked, yEq, -⟩ := right.components yPos
  obtain ⟨target, targetEq⟩ : ∃ target, min (e - e')
      (Format.binary64.targetExponent
        (totalExponent m e - totalExponent m' e')) = target := ⟨_, rfl⟩
  obtain ⟨amount, amountEq⟩ : ∃ amount, (e - e' - target).toNat = amount :=
    ⟨_, rfl⟩
  have modelEq : a / b = .ofModel (.pack (roundWithAccuracy Format.binary64
      .positive (m * 2 ^ amount / m') target
      (accuracyOfFraction (m * 2 ^ amount % m') m'))) := by
    change Float.ofModel (.pack (UnpackedFloat.div _ a.toModel.unpack
      b.toModel.unpack)) = _
    rw [leftUnpacked, rightUnpacked]
    simp only [UnpackedFloat.div, divCore, targetEq, amountEq,
      Nat.shiftLeft_eq]
    rfl
  have quotientEq : ((m * 2 ^ amount : ℕ) : ℝ) / m' * (2 : ℝ) ^ target =
      x / y := by
    have : e = e' + (target + (amount : ℤ)) := by omega
    rw [xEq, yEq, this, zpow_add₀ two_ne_zero, zpow_add₀ two_ne_zero,
      zpow_natCast]
    have := two_zpow_pos (K := ℝ) e'
    push_cast
    field_simp
  have xLog : Int.log 2 x = m.log2 + e := by
    rw [xEq]
    exact (describes_exact m).log_eq mPos
  have yLog : Int.log 2 y = m'.log2 + e' := by
    rw [yEq]
    exact (describes_exact m').log_eq mPos'
  have logGe := log_sub_log_sub_one_le xPos yPos
  have fine : target ≤ ulpExponent (x / y) := by
    rw [← targetEq, targetExponent_eq]
    unfold totalExponent ulpExponent
    omega
  have targetLe : (2 : ℝ) ^ target ≤ x / y := by
    have logLower : -1074 ≤ Int.log 2 (x / y) :=
      (Int.zpow_le_iff_le_log (by norm_num) (div_pos xPos yPos)).mp
        (by exact_mod_cast inRange.lower)
    calc
      (2 : ℝ) ^ target ≤ (2 : ℝ) ^ Int.log 2 (x / y) := by
        apply zpow_le_zpow_right₀ one_le_two
        unfold ulpExponent at fine
        omega
      _ ≤ x / y := by
        exact_mod_cast Int.zpow_log_le_self (b := 2) (by norm_num)
          (div_pos xPos yPos)
  have quotientPos : 0 < m * 2 ^ amount / m' := by
    apply Nat.div_pos _ mPos'
    have denominatorPos : (0 : ℝ) < m' := by exact_mod_cast mPos'
    rw [← quotientEq, le_mul_iff_one_le_left (two_zpow_pos _),
      one_le_div denominatorPos] at targetLe
    exact_mod_cast targetLe
  rw [modelEq, ← quotientEq]
  exact represents_roundWithAccuracy quotientPos (describes_divide mPos')
    (by rwa [quotientEq]) (by rwa [quotientEq])

theorem Represents.zero_div {a b : Float} {y : ℝ} (left : Represents a 0)
    (right : Represents b y) (yPos : 0 < y) : Represents (a / b) 0 := by
  obtain ⟨m', e', mPos', rightUnpacked, -, -⟩ := right.components yPos
  have leftUnpacked := left.unpack_eq_zero rfl
  apply Represents.zero
  change (Float.Model.pack (UnpackedFloat.div _ a.toModel.unpack
    b.toModel.unpack)).unpack = _
  rw [leftUnpacked, rightUnpacked]
  exact unpack_pack_zero .positive

/-! ## Square roots -/

/-- The double stands for zero or for a number from one to `2 ^ 64`: quotients
of such numbers stay in the range of the format. -/
structure RepresentsSize (float : Float) (x : ℝ) : Prop where
  represents : Represents float x
  size : x = 0 ∨ 1 ≤ x
  upper : x ≤ (2 : ℝ) ^ (64 : ℤ)

/-- A 64-bit number is rounded to a double of that size. -/
theorem representsSize_ofInt {n : ℕ} (lt : n < 2 ^ 64) :
    RepresentsSize (ofInt n) (roundMagnitude (n : ℝ)) := by
  rcases Nat.eq_zero_or_pos n with rfl | positive
  · simp only [Nat.cast_zero, roundMagnitude_zero]
    exact ⟨.zero rfl, .inl rfl, (two_zpow_pos _).le⟩
  · refine ⟨represents_ofInt positive (.of_nat positive lt),
      .inr (one_le_roundMagnitude_natCast positive),
      (Representable.two_zpow (by norm_num)).roundMagnitude_le ?_ ?_⟩
    · exact_mod_cast positive
    · exact_mod_cast lt.le

namespace RepresentsSize

variable {a a' b : Float} {x x' y : ℝ}

/-- The quotient of two sizes is rounded once more. -/
theorem div (left : RepresentsSize a x) (right : RepresentsSize b y)
    (yGe : 1 ≤ y) : Represents (a / b) (roundMagnitude (x / y)) := by
  rcases left.size with rfl | xGe
  · rw [zero_div, roundMagnitude_zero]
    exact left.represents.zero_div right.represents (by linarith)
  · refine left.represents.div right.represents (by linarith) (by linarith)
      ⟨?_, ?_⟩
    · rw [le_div_iff₀ (by linarith)]
      calc
        (2 : ℝ) ^ (-1074 : ℤ) * y ≤
            (2 : ℝ) ^ (-1074 : ℤ) * (2 : ℝ) ^ (64 : ℤ) := by
          gcongr
          exact right.upper
        _ = (2 : ℝ) ^ (-1074 + 64 : ℤ) := (zpow_add₀ two_ne_zero _ _).symm
        _ ≤ 1 := zpow_le_one_of_nonpos₀ one_le_two (by norm_num)
        _ ≤ x := xGe
    · calc
        x / y ≤ x := div_le_self (by linarith) yGe
        _ ≤ (2 : ℝ) ^ (64 : ℤ) := left.upper
        _ ≤ (2 : ℝ) ^ (1023 : ℤ) :=
          zpow_le_zpow_right₀ one_le_two (by norm_num)

/-- Whatever is below a quotient is below every quotient of a larger
numerator. -/
theorem lt_div_of_le (left : RepresentsSize a x) (left' : RepresentsSize a' x')
    (right : RepresentsSize b y) (yGe : 1 ≤ y) (le : x ≤ x') {c : Float}
    (lt : c < a / b) : c < a' / b := by
  have quotient' := left'.div right yGe
  refine (left.div right yGe).lt_of_lt quotient' ?_ lt
  rcases left.size with rfl | xGe
  · rw [zero_div, roundMagnitude_zero]
    exact quotient'.nonneg
  · exact roundMagnitude_mono (div_pos (by linarith) (by linarith))
      (by gcongr)

end RepresentsSize

/-- A number of at most 53 bits is converted exactly. -/
theorem represents_ofInt_exact {n : ℕ} (le : n ≤ 2 ^ 53) :
    Represents (ofInt n) n := by
  have rounded := (representsSize_ofInt (by omega : n < 2 ^ 64)).represents
  rwa [(Representable.natCast le).roundMagnitude_eq] at rounded

/-- The quotient of two rounded 64-bit numbers. -/
theorem represents_ofInt_div {n d : ℕ} (dPos : 0 < d) (nLt : n < 2 ^ 64)
    (dLt : d < 2 ^ 64) :
    Represents (ofInt n / ofInt d)
      (roundMagnitude (roundMagnitude (n : ℝ) / roundMagnitude (d : ℝ))) :=
  (representsSize_ofInt nLt).div (representsSize_ofInt dLt)
    (one_le_roundMagnitude_natCast dPos)

/-- Rounding does not bring a quotient above one. -/
theorem exists_represents_ofInt_div {n d : ℕ} (le : n ≤ d) (dPos : 0 < d)
    (dLt : d < 2 ^ 64) : ∃ x ≤ 1, Represents (ofInt n / ofInt d) x := by
  refine ⟨_, ?_, represents_ofInt_div dPos (le.trans_lt dLt) dLt⟩
  have dGe := one_le_roundMagnitude_natCast (K := ℝ) dPos
  rcases Nat.eq_zero_or_pos n with rfl | nPos
  · simp
  · have nGe := one_le_roundMagnitude_natCast (K := ℝ) nPos
    have numeratorLe : roundMagnitude (n : ℝ) ≤ roundMagnitude (d : ℝ) :=
      roundMagnitude_mono (by exact_mod_cast nPos) (by exact_mod_cast le)
    exact Representable.one.roundMagnitude_le
      (div_pos (by linarith) (by linarith))
      ((div_le_one (by linarith)).mpr numeratorLe)

/-- A quotient of whole numbers that are doubles is rounded once. -/
theorem represents_ofInt_div_exact {n d : ℕ} (dPos : 0 < d) (nLe : n ≤ 2 ^ 53)
    (dLe : d ≤ 2 ^ 53) :
    Represents (ofInt n / ofInt d) (roundMagnitude ((n : ℝ) / d)) := by
  have quotient := represents_ofInt_div dPos (by omega : n < 2 ^ 64) (by omega)
  rwa [(Representable.natCast nLe).roundMagnitude_eq,
    (Representable.natCast dLe).roundMagnitude_eq] at quotient

/-- A common factor makes no difference to such a quotient. -/
theorem lt_ofInt_div_scaled_iff {n d k : ℕ} (dPos : 0 < d) (kPos : 0 < k)
    (nLe : n * k ≤ 2 ^ 53) (dLe : d * k ≤ 2 ^ 53) {c : Float} :
    c < ofInt (n * k : ℕ) / ofInt (d * k : ℕ) ↔ c < ofInt n / ofInt d := by
  have scaled := represents_ofInt_div_exact (Nat.mul_pos dPos kPos) nLe dLe
  have unscaled := represents_ofInt_div_exact dPos
    ((Nat.le_mul_of_pos_right n kPos).trans nLe)
    ((Nat.le_mul_of_pos_right d kPos).trans dLe)
  have factor : (k : ℝ) ≠ 0 := by exact_mod_cast kPos.ne'
  have quotient : ((n * k : ℕ) : ℝ) / (d * k : ℕ) = (n : ℝ) / d := by
    rw [Nat.cast_mul, Nat.cast_mul, mul_div_mul_right _ _ factor]
  rw [quotient] at scaled
  exact scaled.lt_congr unscaled

theorem InRange.sqrt {x : ℝ} (inRange : InRange x) : InRange (Real.sqrt x) := by
  have xPos : 0 < x := lt_of_lt_of_le (two_zpow_pos _) inRange.lower
  rcases le_total 1 x with large | small
  · refine .of_one_le (Real.one_le_sqrt.mpr large) ?_
    exact (Real.sqrt_le_self_iff.mpr (Or.inr large)).trans inRange.upper
  · constructor
    · exact inRange.lower.trans (Real.le_sqrt_self_iff.mpr small)
    · exact (Real.sqrt_le_one.mpr small).trans (one_le_zpow₀ one_le_two
        (by norm_num))

theorem log_sqrt {x : ℝ} (xPos : 0 < x) :
    Int.log 2 (Real.sqrt x) = Int.log 2 x / 2 := by
  have lower : (2 : ℝ) ^ Int.log 2 x ≤ x := by
    exact_mod_cast Int.zpow_log_le_self (b := 2) (by norm_num) xPos
  have upper : x < (2 : ℝ) ^ (Int.log 2 x + 1) := by
    exact_mod_cast Int.lt_zpow_succ_log_self (b := 2) (by norm_num) x
  have square (exponent : ℤ) :
      ((2 : ℝ) ^ exponent) ^ 2 = (2 : ℝ) ^ (2 * exponent) := by
    rw [← zpow_natCast, ← zpow_mul, mul_comm]
    rfl
  apply log_eq_of_bounds
  · apply Real.le_sqrt_of_sq_le
    rw [square]
    exact (zpow_le_zpow_right₀ one_le_two (by omega)).trans lower
  · rw [Real.sqrt_lt' (two_zpow_pos _), square]
    exact upper.trans_le (zpow_le_zpow_right₀ one_le_two (by omega))

/-- The integer square root and its remainder place the exact root. -/
theorem describes_sqrt (n : ℕ) :
    Describes (.ofMantissaAndAccuracy (Nat.sqrt n)
        (if n - Nat.sqrt n * Nat.sqrt n = 0 then .exact
          else .inexact (if n - Nat.sqrt n * Nat.sqrt n ≤ Nat.sqrt n
            then .lt else .gt)))
      (Real.sqrt n) := by
  have lower : Nat.sqrt n * Nat.sqrt n ≤ n := Nat.sqrt_le n
  have upper : n < (Nat.sqrt n + 1) * (Nat.sqrt n + 1) :=
    Nat.lt_succ_sqrt n
  obtain ⟨root, rootEq⟩ : ∃ root, Nat.sqrt n = root := ⟨_, rfl⟩
  rw [rootEq] at lower upper ⊢
  have upperCast : (n : ℝ) < ((root : ℝ) + 1) ^ 2 := by
    rw [sq]
    exact_mod_cast upper
  split_ifs with exact below
  · have nEq : n = root ^ 2 := by
      rw [sq]
      omega
    have : Real.sqrt n = root := by
      rw [nEq]
      push_cast
      exact Real.sqrt_sq (Nat.cast_nonneg _)
    rw [this]
    exact describes_exact root
  · -- `n ≤ root ^ 2 + root < (root + 1 / 2) ^ 2`
    have bound : (n : ℝ) < ((root : ℝ) + 1 / 2) ^ 2 := by
      have : (n : ℝ) ≤ root * root + root := by
        exact_mod_cast (by omega : n ≤ root * root + root)
      nlinarith
    have less : Real.sqrt n < root + 1 / 2 :=
      (Real.sqrt_lt' (by positivity)).mpr bound
    apply describes_inexact
    · apply Real.lt_sqrt_of_sq_lt
      rw [sq]
      exact_mod_cast (by omega : root * root < n)
    · exact (Real.sqrt_lt' (by positivity)).mpr upperCast
    · exact iff_of_true rfl less
    · exact iff_of_false (by decide) less.ne
  · -- `(root + 1 / 2) ^ 2 < root ^ 2 + root + 1 ≤ n`
    have bound : ((root : ℝ) + 1 / 2) ^ 2 < n := by
      have : (root : ℝ) * root + root + 1 ≤ n := by
        exact_mod_cast (by omega : root * root + root + 1 ≤ n)
      nlinarith
    have greater : (root : ℝ) + 1 / 2 < Real.sqrt n :=
      Real.lt_sqrt_of_sq_lt bound
    apply describes_inexact
    · linarith
    · exact (Real.sqrt_lt' (by positivity)).mpr upperCast
    · exact iff_of_false (by decide) greater.le.not_gt
    · exact iff_of_false (by decide) greater.ne'

theorem Represents.sqrt {a : Float} {x : ℝ} (represents : Represents a x)
    (xPos : 0 < x) (inRange : InRange x) :
    Represents a.sqrt (roundMagnitude (Real.sqrt x)) := by
  obtain ⟨m, e, mPos, unpacked, xEq, -⟩ := represents.components xPos
  obtain ⟨target, targetEq⟩ : ∃ target, min (e.ediv 2)
      (Format.binary64.targetExponent ((totalExponent m e + 1).ediv 2)) =
        target := ⟨_, rfl⟩
  obtain ⟨amount, amountEq⟩ : ∃ amount, (e - 2 * target).toNat = amount :=
    ⟨_, rfl⟩
  have targetLe : 2 * target ≤ e := by
    have : target ≤ e / 2 := by
      rw [← targetEq]
      exact min_le_left _ _
    omega
  have modelEq : a.sqrt = .ofModel (.pack (roundWithAccuracy Format.binary64
      .positive (Nat.sqrt (m * 2 ^ amount)) target
      (if m * 2 ^ amount - Nat.sqrt (m * 2 ^ amount) *
          Nat.sqrt (m * 2 ^ amount) = 0 then .exact
        else .inexact (if m * 2 ^ amount - Nat.sqrt (m * 2 ^ amount) *
          Nat.sqrt (m * 2 ^ amount) ≤ Nat.sqrt (m * 2 ^ amount)
            then .lt else .gt)))) := by
    change Float.ofModel (.pack (UnpackedFloat.sqrt _ a.toModel.unpack)) = _
    rw [unpacked]
    simp only [UnpackedFloat.sqrt, sqrtCore, targetEq, amountEq,
      Nat.shiftLeft_eq]
  have rootEq : Real.sqrt ((m * 2 ^ amount : ℕ) : ℝ) * (2 : ℝ) ^ target =
      Real.sqrt x := by
    have square : (2 : ℝ) ^ target = Real.sqrt ((2 : ℝ) ^ (2 * target)) := by
      rw [show 2 * target = target + target by ring, zpow_add₀ two_ne_zero,
        Real.sqrt_mul_self (two_zpow_pos _).le]
    rw [square, ← Real.sqrt_mul (Nat.cast_nonneg _), xEq,
      show e = (amount : ℤ) + 2 * target by omega, zpow_add₀ two_ne_zero,
      zpow_natCast]
    push_cast
    rw [mul_assoc]
  have fine : target ≤ ulpExponent (Real.sqrt x) := by
    have xLog : Int.log 2 x = m.log2 + e := by
      rw [xEq]
      exact (describes_exact m).log_eq mPos
    have targetBound : target ≤
        max ((totalExponent m e + 1) / 2 - 53) (-1074) := by
      rw [← targetEq, targetExponent_eq]
      exact min_le_right _ _
    rw [ulpExponent_of_log (log_sqrt xPos), xLog]
    unfold totalExponent at targetBound
    omega
  have rootPos : 0 < Nat.sqrt (m * 2 ^ amount) :=
    Nat.sqrt_pos.mpr (Nat.mul_pos mPos (Nat.two_pow_pos amount))
  rw [modelEq, ← rootEq]
  exact represents_roundWithAccuracy rootPos (describes_sqrt _)
    (by rwa [rootEq]) (by rw [rootEq]; exact inRange.sqrt)

/-! ## Conversion to integers -/

/-- The integer part of a double, toward zero; infinities and NaN have none. -/
def truncate (float : Float) : Option ℤ :=
  match float.toModel.unpack with
  | .zero _ => some 0
  | .finite sign mantissa exponent _ =>
    some (roundToInt sign mantissa exponent)
  | _ => none

/-- The neighbouring integral double, away from zero exactly on `away`. -/
def roundIntegral (away : Sign) (float : Float) : Float :=
  match float.toModel.unpack with
  | .finite sign mantissa exponent _ =>
    if 0 ≤ exponent then float
    else
      let unit := 2 ^ (-exponent).toNat
      let magnitude :=
        if sign == away then (mantissa + (unit - 1)) / unit
        else mantissa / unit
      .ofModel (.pack (UnpackedFloat.round Format.binary64 sign magnitude 0))
  | _ => float

/-- The least integral double that is not below `float`. -/
def ceil (float : Float) : Float :=
  roundIntegral .positive float

/-- The greatest integral double that is not above `float`. -/
def floor (float : Float) : Float :=
  roundIntegral .negative float

/-- The widening of a single precision number, which is exact. -/
def ofFloat32 (float : Float32) : Float :=
  match float.toModel.unpack with
  | .finite sign mantissa exponent _ =>
    .ofModel
      (.pack (UnpackedFloat.round Format.binary64 sign mantissa exponent))
  | .zero sign => .ofModel (.pack (.zero sign))
  | .infinity sign => .ofModel (.pack (.infinity sign))
  | .notANumber => .ofModel (.pack .notANumber)

theorem roundToInt_eq (mantissa : ℕ) (exponent : ℤ) :
    roundToInt .positive mantissa exponent =
      ⌊(mantissa : ℝ) * (2 : ℝ) ^ exponent⌋ := by
  simp only [roundToInt, decreaseExponent, shiftToExponent, Sign.apply,
    Nat.shiftLeft_eq]
  have shifted := (describes_exact (mantissa * 2 ^ (exponent - 0).toNat)).shiftRight
    (0 - (exponent - ((exponent - 0).toNat : ℤ))).toNat
  rw [← shifted.floor_eq]
  congr 1
  rcases le_total 0 exponent with nonneg | nonpos
  · obtain ⟨power, rfl⟩ := Int.eq_ofNat_of_zero_le nonneg
    simp
  · obtain ⟨power, rfl⟩ := Int.exists_eq_neg_ofNat nonpos
    have zero : (-(power : ℤ) - 0).toNat = 0 := by omega
    simp only [zero]
    simp [div_eq_mul_inv]

theorem Represents.truncate {float : Float} {x : ℝ}
    (represents : Represents float x) : truncate float = some ⌊x⌋ := by
  unfold Binary64.truncate
  cases represents with
  | zero unpacked => simp [unpacked]
  | finite unpacked => rw [unpacked, ← roundToInt_eq]

/-- Conversion to an unsigned 64-bit integer, for values that fit. -/
theorem Represents.toUInt64 {float : Float} {x : ℝ}
    (represents : Represents float x) {n : ℕ} (floorEq : ⌊x⌋ = n)
    (lt : n < 2 ^ 64) : float.toUInt64.toNat = n := by
  change (UInt64.ofNatClamp (float.toModel.unpack.toInt 0
    (UInt64.size - 1)).toNat).toNat = _
  have clampEq : (UInt64.ofNatClamp n).toNat = n := by
    rw [UInt64.ofNatClamp, dif_pos (show n < UInt64.size from lt)]
    rfl
  cases represents with
  | zero unpacked =>
    have : n = 0 := by simpa [eq_comm] using floorEq
    rw [unpacked, this]
    rfl
  | finite unpacked =>
    rw [unpacked, UnpackedFloat.toInt, roundToInt_eq, floorEq,
      Int.toNat_natCast]
    exact clampEq

/-- The least integer above a magnitude with a negative exponent. -/
theorem ceil_magnitude (mantissa : ℕ) (power : ℕ) :
    ⌈(mantissa : ℝ) * (2 : ℝ) ^ (-(power : ℤ))⌉ =
      ((mantissa + (2 ^ power - 1)) / 2 ^ power : ℕ) := by
  have unitPos : 0 < 2 ^ power := Nat.two_pow_pos power
  have unitCast : (0 : ℝ) < (2 : ℝ) ^ power := by positivity
  obtain ⟨quotient, quotientEq⟩ : ∃ quotient,
      (mantissa + (2 ^ power - 1)) / 2 ^ power = quotient := ⟨_, rfl⟩
  have lower := Nat.div_mul_le_self (mantissa + (2 ^ power - 1)) (2 ^ power)
  have upper := Nat.lt_div_mul_add (a := mantissa + (2 ^ power - 1)) unitPos
  rw [quotientEq] at lower upper
  rw [quotientEq, Int.ceil_eq_iff, zpow_neg, zpow_natCast, ← div_eq_mul_inv,
    lt_div_iff₀ unitCast, div_le_iff₀ unitCast]
  constructor
  · have : ((quotient * 2 ^ power : ℕ) : ℝ) < (mantissa + 2 ^ power : ℕ) := by
      exact_mod_cast (by omega : quotient * 2 ^ power < mantissa + 2 ^ power)
    push_cast at this ⊢
    linarith
  · exact_mod_cast (by omega : mantissa ≤ quotient * 2 ^ power)

theorem Represents.ceil {float : Float} {x : ℝ}
    (represents : Represents float x) (le : x ≤ (2 : ℝ) ^ 53) :
    Represents (ceil float) ⌈x⌉ := by
  unfold Binary64.ceil roundIntegral
  cases represents with
  | zero unpacked =>
    rw [unpacked]
    simpa using Represents.zero unpacked
  | @finite mantissa exponent positive unpacked =>
    rw [unpacked]
    simp only [show (Sign.positive == Sign.positive) = true from rfl, if_true]
    split_ifs with integral
    · obtain ⟨power, rfl⟩ := Int.eq_ofNat_of_zero_le integral
      have : (⌈(mantissa : ℝ) * (2 : ℝ) ^ (power : ℤ)⌉ : ℝ) =
          (mantissa : ℝ) * (2 : ℝ) ^ (power : ℤ) := by
        rw [zpow_natCast]
        exact_mod_cast congrArg (Int.cast (R := ℝ))
          (Int.ceil_intCast (R := ℝ) ((mantissa : ℤ) * 2 ^ power))
      rw [this]
      exact .finite unpacked
    · obtain ⟨power, rfl⟩ := Int.exists_eq_neg_ofNat (not_le.mp integral).le
      have ceilLe : ⌈(mantissa : ℝ) * (2 : ℝ) ^ (-(power : ℤ))⌉ ≤ 2 ^ 53 := by
        rw [Int.ceil_le]
        exact_mod_cast le
      rw [ceil_magnitude] at ceilLe ⊢
      simp only [neg_neg, Int.toNat_natCast, Int.cast_natCast]
      exact represents_round_exact (by exact_mod_cast ceilLe)

end Binary64
