import VirtualPeople.Binary64.Rounding

/-!
# The rounding step of Lean's binary64 model

Lean gives `Float` a logical model that rounds with one round bit and one
sticky bit.  Here the bits are read as a statement about the exact quotient
they stand for, the statement is kept by every right shift, and the outcome is
the rounded magnitude of `Rounding`.  Packing and unpacking a canonical finite
number gives it back.
-/

namespace Binary64

open Float.Model
open Float.Model.UnpackedFloat

/-! ## Round and sticky bits -/

/-- The extended mantissa is the truncation of `quotient`, and its two bits
place the remaining fraction relative to one half. -/
structure Describes (extended : ExtendedMantissa) (quotient : ℝ) : Prop where
  lower : (extended.mantissa : ℝ) ≤ quotient
  upper : quotient < extended.mantissa + 1
  roundBit :
    extended.roundBit = true ↔ extended.mantissa + 1 / 2 ≤ quotient
  stickyBit :
    extended.stickyBit = true ↔
      quotient ≠ extended.mantissa ∧ quotient ≠ extended.mantissa + 1 / 2

theorem Describes.floor_eq {extended : ExtendedMantissa} {quotient : ℝ}
    (describes : Describes extended quotient) :
    ⌊quotient⌋ = extended.mantissa := by
  rw [Int.floor_eq_iff]
  exact ⟨by exact_mod_cast describes.lower, by exact_mod_cast describes.upper⟩

/-- Dropping one bit halves the quotient and keeps the reading. -/
theorem Describes.shiftRightOne {extended : ExtendedMantissa} {quotient : ℝ}
    (describes : Describes extended quotient) :
    Describes extended.shiftRightOne (quotient / 2) := by
  obtain ⟨mantissa, roundBit, stickyBit⟩ := extended
  obtain ⟨lower, upper, roundIff, stickyIff⟩ := describes
  simp only at lower upper roundIff stickyIff
  obtain ⟨half, parity⟩ : ∃ half, mantissa = 2 * half ∨ mantissa = 2 * half + 1 :=
    ⟨mantissa / 2, by omega⟩
  have halfEq : mantissa / 2 = half := by omega
  -- The new sticky bit says that anything at all was left of the old one.
  have sticky : (roundBit || stickyBit) = true ↔ quotient ≠ mantissa := by
    rw [Bool.or_eq_true, roundIff, stickyIff]
    constructor
    · rintro (above | ⟨different, -⟩)
      · intro equal
        linarith
      · exact different
    · intro different
      by_cases above : (mantissa : ℝ) + 1 / 2 ≤ quotient
      · exact Or.inl above
      · exact Or.inr ⟨different, fun equal => above equal.ge⟩
  simp only [ExtendedMantissa.shiftRightOne]
  rcases parity with even | odd
  · have cast : (mantissa : ℝ) = 2 * half := by exact_mod_cast even
    refine ⟨?_, ?_, ?_, ?_⟩ <;> simp only [halfEq]
    · linarith
    · linarith
    · rw [show mantissa % 2 = 0 by omega]
      simp only [bne_self_eq_false, Bool.false_eq_true, false_iff, not_le]
      linarith
    · rw [sticky]
      constructor
      · intro different
        exact ⟨fun equal => different (by linarith), by linarith⟩
      · rintro ⟨different, -⟩ equal
        exact different (by linarith)
  · have cast : (mantissa : ℝ) = 2 * half + 1 := by exact_mod_cast odd
    refine ⟨?_, ?_, ?_, ?_⟩ <;> simp only [halfEq]
    · linarith
    · linarith
    · rw [show mantissa % 2 = 1 by omega]
      simp only [bne_iff_ne, ne_eq, one_ne_zero, not_false_eq_true, true_iff]
      linarith
    · rw [sticky]
      constructor
      · intro different
        exact ⟨by linarith, fun equal => different (by linarith)⟩
      · rintro ⟨-, different⟩ equal
        exact different (by linarith)

theorem Describes.shiftRight {extended : ExtendedMantissa} {quotient : ℝ}
    (describes : Describes extended quotient) (amount : ℕ) :
    Describes (extended >>> amount) (quotient / 2 ^ amount) := by
  induction amount with
  | zero => simpa [HShiftRight.hShiftRight, Nat.repeat] using describes
  | succ amount inductionHypothesis =>
    have halved := inductionHypothesis.shiftRightOne
    rw [div_div, ← pow_succ] at halved
    exact halved

theorem describes_exact (mantissa : ℕ) :
    Describes (.ofMantissaAndAccuracy mantissa .exact) mantissa := by
  refine ⟨?_, ?_, ?_, ?_⟩ <;> simp [ExtendedMantissa.ofMantissaAndAccuracy]

/-- The remainder of a division, as the model classifies it. -/
theorem describes_inexact {mantissa : ℕ} {quotient : ℝ} {ordering : Ordering}
    (lower : (mantissa : ℝ) < quotient) (upper : quotient < mantissa + 1)
    (less : ordering = .lt ↔ quotient < mantissa + 1 / 2)
    (equal : ordering = .eq ↔ quotient = mantissa + 1 / 2) :
    Describes (.ofMantissaAndAccuracy mantissa (.inexact ordering))
      quotient := by
  cases ordering with
  | lt =>
    have below := less.mp rfl
    refine ⟨lower.le, upper, ?_, ?_⟩ <;>
      simp only [ExtendedMantissa.ofMantissaAndAccuracy]
    · simpa using below
    · exact iff_of_true trivial ⟨lower.ne', below.ne⟩
  | eq =>
    have middle := equal.mp rfl
    refine ⟨lower.le, upper, ?_, ?_⟩ <;>
      simp only [ExtendedMantissa.ofMantissaAndAccuracy]
    · simpa using middle.ge
    · simp [middle]
  | gt =>
    have notBelow : ¬quotient < mantissa + 1 / 2 := fun below => by
      simpa using less.mpr below
    have notMiddle : quotient ≠ mantissa + 1 / 2 := fun middle => by
      simpa using equal.mpr middle
    refine ⟨lower.le, upper, ?_, ?_⟩ <;>
      simp only [ExtendedMantissa.ofMantissaAndAccuracy]
    · simpa using notBelow
    · exact iff_of_true trivial ⟨lower.ne', notMiddle⟩

/-- Rounding on the two bits is rounding the quotient to the nearest integer. -/
theorem Describes.roundedMantissa {extended : ExtendedMantissa}
    {quotient : ℝ} (describes : Describes extended quotient) :
    (extended.roundedMantissa : ℤ) = roundHalfEven quotient := by
  have floorEq := describes.floor_eq
  have fractEq : Int.fract quotient = quotient - extended.mantissa := by
    rw [Int.fract, floorEq]
    norm_num
  obtain ⟨mantissa, roundBit, stickyBit⟩ := extended
  obtain ⟨lower, upper, roundIff, stickyIff⟩ := describes
  simp only at lower upper roundIff stickyIff floorEq fractEq
  unfold roundHalfEven
  rw [fractEq, floorEq]
  cases roundBit <;> cases stickyBit <;>
    simp only [Bool.false_eq_true, true_iff, false_iff, not_le, not_and_or,
      not_not, ne_eq] at roundIff stickyIff <;>
    simp only [ExtendedMantissa.roundedMantissa, ExtendedMantissa.accuracy,
      Accuracy.roundToNearestEven]
  · rw [if_pos (by linarith)]
  · rw [if_pos (by linarith)]
  · have middle : quotient = mantissa + 1 / 2 := by
      rcases stickyIff with equal | equal
      · linarith
      · exact equal
    rw [if_neg (by linarith), if_neg (by linarith)]
    push_cast
    rfl
  · have above : (mantissa : ℝ) + 1 / 2 < quotient :=
      lt_of_le_of_ne roundIff (Ne.symm stickyIff.2)
    rw [if_neg (by linarith), if_pos (by linarith)]
    push_cast
    rfl

/-! ## Rounding to the format -/

/-- Mantissa and exponent of a finite number in the form `pack` expects. -/
structure Canonical (mantissa : ℕ) (exponent : ℤ) : Prop where
  mantissaLt : mantissa < 2 ^ 53
  exponentGe : -1074 ≤ exponent
  normal : 2 ^ 52 ≤ mantissa ∨ exponent = -1074

theorem targetExponent_eq (exponent : ℤ) :
    Format.binary64.targetExponent exponent = max (exponent - 53) (-1074) := by
  simp [Format.targetExponent, Format.minExponent, Format.mantissaBits]

/-- The logarithm of a magnitude is read off its truncated mantissa. -/
theorem Describes.log_eq {mantissa : ℕ} {exponent : ℤ} {accuracy : Accuracy}
    {quotient : ℝ} (positive : 0 < mantissa)
    (describes :
      Describes (.ofMantissaAndAccuracy mantissa accuracy) quotient) :
    Int.log 2 (quotient * (2 : ℝ) ^ exponent) = mantissa.log2 + exponent := by
  have mantissaEq : (ExtendedMantissa.ofMantissaAndAccuracy mantissa
      accuracy).mantissa = mantissa := by
    rcases accuracy with _ | ordering
    · rfl
    · cases ordering <;> rfl
  have lower := describes.lower
  have upper := describes.upper
  rw [mantissaEq] at lower upper
  have powerLe : 2 ^ mantissa.log2 ≤ mantissa := Nat.log2_self_le positive.ne'
  have powerLt : mantissa + 1 ≤ 2 ^ (mantissa.log2 + 1) := Nat.lt_log2_self
  apply log_eq_of_bounds
  · rw [zpow_add₀ two_ne_zero, zpow_natCast]
    have powerLeCast : (2 : ℝ) ^ mantissa.log2 ≤ quotient :=
      le_trans (by exact_mod_cast powerLe) lower
    gcongr
  · rw [show (mantissa.log2 : ℤ) + exponent + 1 =
        ((mantissa.log2 + 1 : ℕ) : ℤ) + exponent by push_cast; ring,
      zpow_add₀ two_ne_zero, zpow_natCast]
    have powerLtCast : quotient < (2 : ℝ) ^ (mantissa.log2 + 1) :=
      lt_of_lt_of_le upper (by exact_mod_cast powerLt)
    gcongr

/-- A mantissa of at most 53 bits on the grid is kept, except that the carry
`2 ^ 53` moves to the next binade. -/
theorem shiftToTargetExponent_carry {mantissa : ℕ} {exponent : ℤ}
    (positive : 0 < mantissa) (le : mantissa ≤ 2 ^ 53)
    (exponentGe : -1074 ≤ exponent)
    (normal : 2 ^ 52 ≤ mantissa ∨ exponent = -1074) :
    ∃ mantissa' exponent',
      (shiftToTargetExponent Format.binary64 mantissa exponent .exact).1.mantissa
          = mantissa' ∧
        (shiftToTargetExponent Format.binary64 mantissa exponent .exact).2
          = exponent' ∧
        0 < mantissa' ∧ Canonical mantissa' exponent' ∧
        (mantissa' : ℝ) * (2 : ℝ) ^ exponent' =
          (mantissa : ℝ) * (2 : ℝ) ^ exponent := by
  rcases lt_or_eq_of_le le with lt | eq
  · have logLt : mantissa.log2 < 53 := (Nat.log2_lt positive.ne').mpr lt
    have shiftZero :
        (max (totalExponent mantissa exponent - 53) (-1074) - exponent).toNat
          = 0 := by
      unfold totalExponent
      omega
    refine ⟨mantissa, exponent, ?_, ?_, positive, ⟨lt, exponentGe, normal⟩,
      rfl⟩
    · simp only [shiftToTargetExponent, shiftToExponent, targetExponent_eq,
        shiftZero]
      rfl
    · simp only [shiftToTargetExponent, shiftToExponent, targetExponent_eq,
        shiftZero]
      simp
  · subst eq
    have shiftOne :
        (max (totalExponent (2 ^ 53) exponent - 53) (-1074) - exponent).toNat
          = 1 := by
      unfold totalExponent
      rw [Nat.log2_two_pow]
      omega
    refine ⟨2 ^ 52, exponent + 1, ?_, ?_, by norm_num,
      ⟨by norm_num, by omega, Or.inl le_rfl⟩, ?_⟩
    · simp only [shiftToTargetExponent, shiftToExponent, targetExponent_eq,
        shiftOne]
      rfl
    · simp only [shiftToTargetExponent, shiftToExponent, targetExponent_eq,
        shiftOne]
      rfl
    · rw [zpow_add₀ two_ne_zero]
      push_cast
      ring

/-- The rounding step returns the rounded magnitude in canonical form. -/
theorem roundWithAccuracy_eq {mantissa : ℕ} {exponent : ℤ}
    {accuracy : Accuracy} {quotient : ℝ} (sign : Sign)
    (positive : 0 < mantissa)
    (describes :
      Describes (.ofMantissaAndAccuracy mantissa accuracy) quotient)
    (fine : exponent ≤ ulpExponent (quotient * (2 : ℝ) ^ exponent))
    (large : (2 : ℝ) ^ (-1074 : ℤ) ≤ quotient * (2 : ℝ) ^ exponent) :
    ∃ (mantissa' : ℕ) (exponent' : ℤ) (positive' : 0 < mantissa'),
      roundWithAccuracy Format.binary64 sign mantissa exponent accuracy =
          .finite sign mantissa' exponent' positive' ∧
        Canonical mantissa' exponent' ∧
        (mantissa' : ℝ) * (2 : ℝ) ^ exponent' =
          roundMagnitude (quotient * (2 : ℝ) ^ exponent) := by
  set magnitude := quotient * (2 : ℝ) ^ exponent with magnitudeDef
  have magnitudePos : 0 < magnitude := lt_of_lt_of_le (two_zpow_pos _) large
  have logEq : Int.log 2 magnitude = mantissa.log2 + exponent :=
    describes.log_eq positive
  have target : max (totalExponent mantissa exponent - 53) (-1074) =
      ulpExponent magnitude := by
    unfold totalExponent ulpExponent
    rw [logEq]
    congr 1
    ring
  obtain ⟨amount, amountEq⟩ :
      ∃ amount : ℕ, (ulpExponent magnitude - exponent).toNat = amount := ⟨_, rfl⟩
  have ulpEq : exponent + amount = ulpExponent magnitude := by omega
  have shifted := describes.shiftRight amount
  have scaled : quotient / 2 ^ amount =
      magnitude / (2 : ℝ) ^ ulpExponent magnitude := by
    rw [magnitudeDef, ← magnitudeDef, ← ulpEq, zpow_add₀ two_ne_zero,
      zpow_natCast, magnitudeDef]
    field_simp
  have firstRound := shifted.roundedMantissa
  rw [scaled] at firstRound
  obtain ⟨rounded, roundedEq⟩ : ∃ rounded, (ExtendedMantissa.ofMantissaAndAccuracy
      mantissa accuracy >>> amount).roundedMantissa = rounded := ⟨_, rfl⟩
  rw [roundedEq] at firstRound
  have valueEq : (rounded : ℝ) * (2 : ℝ) ^ ulpExponent magnitude =
      roundMagnitude magnitude := by
    unfold roundMagnitude
    rw [← firstRound]
    push_cast
    rfl
  have roundedLe : rounded ≤ 2 ^ 53 := by
    have bound := roundMagnitude_le_two_zpow (x := magnitude)
    rw [← valueEq, add_comm, zpow_add₀ two_ne_zero] at bound
    have := le_of_mul_le_mul_right bound (two_zpow_pos _)
    exact_mod_cast this
  have roundedPos : 0 < rounded := by
    have bound := (Representable.two_zpow (K := ℝ) le_rfl).le_roundMagnitude
      (two_zpow_pos _) large
    rw [← valueEq] at bound
    rcases Nat.eq_zero_or_pos rounded with zero | pos
    · rw [zero] at bound
      have := two_zpow_pos (K := ℝ) (-1074)
      simp only [Nat.cast_zero, zero_mul] at bound
      linarith
    · exact pos
  have roundedNormal :
      2 ^ 52 ≤ rounded ∨ ulpExponent magnitude = -1074 := by
    by_cases normal : -1022 ≤ Int.log 2 magnitude
    · left
      have bound := two_zpow_log_le_roundMagnitude magnitudePos normal
      have ulpLog : Int.log 2 magnitude = 52 + ulpExponent magnitude := by
        unfold ulpExponent
        omega
      rw [← valueEq, ulpLog, zpow_add₀ two_ne_zero] at bound
      have := le_of_mul_le_mul_right bound (two_zpow_pos _)
      exact_mod_cast this
    · right
      unfold ulpExponent
      omega
  obtain ⟨mantissa', exponent', mantissaEq, exponentEq, positive', canonical,
    value'⟩ := shiftToTargetExponent_carry roundedPos roundedLe
      (by unfold ulpExponent; omega) roundedNormal
  refine ⟨mantissa', exponent', positive', ?_, canonical,
    value'.trans valueEq⟩
  have first : shiftToTargetExponent Format.binary64 mantissa exponent accuracy =
      (ExtendedMantissa.ofMantissaAndAccuracy mantissa accuracy >>> amount,
        ulpExponent magnitude) := by
    simp only [shiftToTargetExponent, shiftToExponent, targetExponent_eq,
      target, amountEq, ulpEq]
  unfold roundWithAccuracy
  simp only [first, roundedEq, mantissaEq, exponentEq]
  rw [dif_neg positive'.ne']

/-! ## Packing -/

theorem unpackSign_packComponents (sign : Sign) (exponent : BitVec 11)
    (mantissa : BitVec 52) :
    unpackSign (packComponents Format.binary64 sign exponent mantissa) =
      sign.toBitVec := by
  change (sign.toBitVec ++ exponent ++ mantissa).extractLsb' 63 1 =
    sign.toBitVec
  rw [BitVec.extractLsb'_append_eq_of_le (by decide),
    BitVec.extractLsb'_append_eq_of_le (by decide)]
  cases sign <;> rfl

@[simp] theorem ofBitVec_toBitVec (sign : Sign) :
    Sign.ofBitVec sign.toBitVec = sign := by
  cases sign <;> rfl

/-- A canonical finite number of the format survives packing. -/
theorem unpack_pack_finite {mantissa : ℕ} {exponent : ℤ}
    (sign : Sign) (positive : 0 < mantissa)
    (canonical : Canonical mantissa exponent) (le : exponent ≤ 971) :
    (pack (.finite sign mantissa exponent positive)).unpack =
      .finite sign mantissa exponent positive := by
  obtain ⟨mantissaLt, exponentGe, normal⟩ := canonical
  change UnpackedFloat.unpack Format.binary64
    (UnpackedFloat.pack Format.binary64 (.finite sign mantissa exponent
      positive)) = _
  have biasedEq : (exponent + (Format.binary64.exponentBias : ℤ) +
      (Format.binary64.mantissaBitsWithoutImplicit : ℤ)).toNat =
        (exponent + 1075).toNat := by
    simp only [Format.exponentBias]
    omega
  have notInfinite :
      ¬2 ^ Format.binary64.exponentBits ≤ (exponent + 1075).toNat + 1 := by
    simp only
    omega
  simp only [UnpackedFloat.pack, biasedEq, if_neg notInfinite]
  by_cases isNormal : 2 ^ 52 ≤ mantissa
  · have logEq : mantissa.log2 = 52 :=
      (Nat.log2_eq_iff positive.ne').mpr ⟨isNormal, mantissaLt⟩
    have biasedLt : (exponent + 1075).toNat < 2 ^ 11 := by omega
    have notOnes : BitVec.ofNat 11 (exponent + 1075).toNat ≠ -1#11 := by
      intro equal
      have := congrArg BitVec.toNat equal
      rw [BitVec.toNat_ofNat, Nat.mod_eq_of_lt biasedLt] at this
      change _ = 2047 at this
      omega
    have notZero : BitVec.ofNat 11 (exponent + 1075).toNat ≠ 0#11 := by
      intro equal
      have := congrArg BitVec.toNat equal
      rw [BitVec.toNat_ofNat, Nat.mod_eq_of_lt biasedLt] at this
      change _ = 0 at this
      omega
    have mantissaEq : (1#1 ++ BitVec.ofNat 52 mantissa).toNat = mantissa := by
      rw [BitVec.toNat_append, BitVec.toNat_ofNat, Nat.shiftLeft_eq]
      change 2 ^ 52 ||| mantissa % 2 ^ 52 = mantissa
      rw [Nat.or_comm,
        Nat.or_two_pow_eq_add_of_lt (Nat.mod_lt mantissa (Nat.two_pow_pos 52))]
      omega
    rw [if_pos (by rw [logEq]; rfl)]
    simp only [UnpackedFloat.unpack, unpackMantissa_packComponents,
      unpackExponent_packComponents, unpackSign_packComponents,
      ofBitVec_toBitVec, if_neg notOnes, if_neg notZero, mantissaEq,
      BitVec.toNat_ofNat, Nat.mod_eq_of_lt biasedLt]
    congr 1
    simp only [Format.exponentBias]
    omega
  · have exponentEq : exponent = -1074 := normal.resolve_left isNormal
    have mantissaLt' : mantissa < 2 ^ 52 := not_le.mp isNormal
    have logLt : mantissa.log2 < 52 := (Nat.log2_lt positive.ne').mpr mantissaLt'
    have notZero : BitVec.ofNat 52 mantissa ≠ 0#52 := by
      intro equal
      have := congrArg BitVec.toNat equal
      rw [BitVec.toNat_ofNat, Nat.mod_eq_of_lt mantissaLt'] at this
      change _ = 0 at this
      omega
    rw [if_neg (by simp only [Format.mantissaBits]; omega)]
    simp only [UnpackedFloat.unpack, unpackMantissa_packComponents,
      unpackExponent_packComponents, unpackSign_packComponents,
      ofBitVec_toBitVec]
    rw [if_neg (by decide), if_pos trivial, dif_neg notZero]
    simp only [BitVec.toNat_ofNat, Nat.mod_eq_of_lt mantissaLt']
    congr 1
    rw [exponentEq]
    rfl

@[simp] theorem unpack_pack_zero (sign : Sign) :
    (pack (.zero sign)).unpack = .zero sign := by
  cases sign <;> rfl

/-- Whatever is unpacked from 64 bits is canonical. -/
theorem canonical_of_unpack_eq {float : Float.Model} {sign : Sign}
    {mantissa : ℕ} {exponent : ℤ} {positive : 0 < mantissa}
    (unpacked : float.unpack = .finite sign mantissa exponent positive) :
    Canonical mantissa exponent ∧ exponent ≤ 971 := by
  change UnpackedFloat.unpack Format.binary64 float.toBits.toBitVec = _
    at unpacked
  have exponentLt :=
    (@unpackExponent Format.binary64 float.toBits.toBitVec).isLt
  have mantissaLt :=
    (@unpackMantissa Format.binary64 float.toBits.toBitVec).isLt
  simp only at exponentLt mantissaLt
  unfold UnpackedFloat.unpack at unpacked
  simp only [Format.exponentBias] at unpacked
  split_ifs at unpacked with ones _ zeros _
  · -- Subnormal numbers sit on the coarsest exponent.
    injection unpacked with _ mantissaEq exponentEq
    rw [zeros] at exponentEq
    simp only [BitVec.toNat_ofNat] at exponentEq
    refine ⟨⟨by omega, by omega, Or.inr (by omega)⟩, by omega⟩
  · injection unpacked with _ mantissaEq exponentEq
    have notOnes : (@unpackExponent Format.binary64
        float.toBits.toBitVec).toNat ≠ 2047 := fun equal =>
      ones (BitVec.eq_of_toNat_eq equal)
    have notZero : (@unpackExponent Format.binary64
        float.toBits.toBitVec).toNat ≠ 0 := fun equal =>
      zeros (BitVec.eq_of_toNat_eq equal)
    rw [BitVec.toNat_append, Nat.shiftLeft_eq, Nat.or_comm] at mantissaEq
    change _ ||| 2 ^ 52 = mantissa at mantissaEq
    rw [Nat.or_two_pow_eq_add_of_lt mantissaLt] at mantissaEq
    refine ⟨⟨by omega, by omega, Or.inl (by omega)⟩, by omega⟩

end Binary64
