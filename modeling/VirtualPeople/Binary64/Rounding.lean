import Mathlib

/-!
# Rounding to the nearest binary64 number

This module states rounding to nearest, ties to even, as a function on the
positive elements of an ordered field.  The grid on which a magnitude is
rounded is given by its integer logarithm, so that the same definition serves
rational products and quotients and real square roots.  Rounding is monotone
and fixes every representable magnitude; these two facts are what programs
that compute with doubles rely on.
-/

namespace Binary64

variable {K : Type*} [Field K] [LinearOrder K] [FloorRing K]

/-! ## Nearest integers -/

/-- The nearest integer, with ties going to the even neighbour. -/
def roundHalfEven (x : K) : ℤ :=
  if Int.fract x < 1 / 2 then ⌊x⌋
  else if 1 / 2 < Int.fract x then ⌊x⌋ + 1
  else ⌊x⌋ + ⌊x⌋ % 2

theorem floor_le_roundHalfEven (x : K) : ⌊x⌋ ≤ roundHalfEven x := by
  unfold roundHalfEven
  split_ifs <;> omega

theorem roundHalfEven_le_floor_add_one (x : K) :
    roundHalfEven x ≤ ⌊x⌋ + 1 := by
  unfold roundHalfEven
  split_ifs <;> omega

variable [IsStrictOrderedRing K]

@[simp] theorem roundHalfEven_intCast (n : ℤ) :
    roundHalfEven (n : K) = n := by
  simp [roundHalfEven]

@[simp] theorem roundHalfEven_zero : roundHalfEven (0 : K) = 0 := by
  simpa using roundHalfEven_intCast (K := K) 0

/-- Nearest integers keep the order. -/
theorem roundHalfEven_mono {x y : K} (le : x ≤ y) :
    roundHalfEven x ≤ roundHalfEven y := by
  rcases lt_or_eq_of_le (Int.floor_le_floor le) with floorLt | floorEq
  · calc
      roundHalfEven x ≤ ⌊x⌋ + 1 := roundHalfEven_le_floor_add_one x
      _ ≤ ⌊y⌋ := floorLt
      _ ≤ roundHalfEven y := floor_le_roundHalfEven y
  · -- Inside one unit interval only the fractional parts decide.
    have fractLe : Int.fract x ≤ Int.fract y := by
      unfold Int.fract
      rw [floorEq]
      linarith
    unfold roundHalfEven
    rw [floorEq]
    split_ifs <;> first | omega | (exfalso; linarith)

/-! ## The rounding grid -/

/-- Exponent of the unit in the last place of a magnitude: 53 significant
bits, and never below the smallest subnormal. -/
def ulpExponent (x : K) : ℤ :=
  max (Int.log 2 x - 52) (-1074)

/-- A magnitude rounded to 53 significant bits, with no bound above. -/
def roundMagnitude (x : K) : K :=
  (roundHalfEven (x / (2 : K) ^ ulpExponent x) : K) * (2 : K) ^ ulpExponent x

@[simp] theorem roundMagnitude_zero : roundMagnitude (0 : K) = 0 := by
  simp [roundMagnitude]

/-- Magnitudes that need no rounding. -/
def Representable (x : K) : Prop :=
  ∃ (mantissa : ℕ) (exponent : ℤ),
    mantissa ≤ 2 ^ 53 ∧ -1074 ≤ exponent ∧
      x = (mantissa : K) * (2 : K) ^ exponent

theorem two_zpow_pos (exponent : ℤ) : (0 : K) < (2 : K) ^ exponent :=
  zpow_pos two_pos exponent

theorem ulpExponent_mono {x y : K} (pos : 0 < x) (le : x ≤ y) :
    ulpExponent x ≤ ulpExponent y := by
  have logLe : Int.log 2 x ≤ Int.log 2 y := Int.log_mono_right pos le
  unfold ulpExponent
  omega

/-- The logarithm is pinned down by two consecutive powers. -/
theorem log_eq_of_bounds {x : K} {exponent : ℤ}
    (lower : (2 : K) ^ exponent ≤ x) (upper : x < (2 : K) ^ (exponent + 1)) :
    Int.log 2 x = exponent := by
  have pos : 0 < x := lt_of_lt_of_le (two_zpow_pos exponent) lower
  apply le_antisymm
  · have := (Int.lt_zpow_iff_log_lt (b := 2) (by norm_num) pos
      (x := exponent + 1)).mp (by exact_mod_cast upper)
    omega
  · exact (Int.zpow_le_iff_le_log (b := 2) (by norm_num) pos).mp
      (by exact_mod_cast lower)

/-- A multiple of the grid of its own magnitude is left alone. -/
theorem roundMagnitude_of_multiple {x : K} (n : ℤ)
    (multiple : x = (n : K) * (2 : K) ^ ulpExponent x) :
    roundMagnitude x = x := by
  have quotient : x / (2 : K) ^ ulpExponent x = (n : K) := by
    rw [div_eq_iff (two_zpow_pos _).ne']
    exact multiple
  rw [roundMagnitude, quotient, roundHalfEven_intCast]
  exact multiple.symm

theorem Representable.roundMagnitude_eq {x : K}
    (representable : Representable x) : roundMagnitude x = x := by
  obtain ⟨mantissa, exponent, mantissaLe, exponentGe, rfl⟩ := representable
  rcases Nat.eq_zero_or_pos mantissa with zero | mantissaPos
  · subst zero
    simp [roundMagnitude]
  -- The top mantissa `2 ^ 53` belongs to the next binade.
  obtain ⟨shift, ulpLe⟩ : ∃ shift : ℕ,
      ulpExponent ((mantissa : K) * (2 : K) ^ exponent) ≤ exponent + shift ∧
        2 ^ shift ∣ mantissa := by
    have pos : (0 : K) < (mantissa : K) * (2 : K) ^ exponent :=
      mul_pos (by exact_mod_cast mantissaPos) (two_zpow_pos exponent)
    rcases lt_or_eq_of_le mantissaLe with mantissaLt | mantissaEq
    · refine ⟨0, ?_, by simp⟩
      have upper : (mantissa : K) * (2 : K) ^ exponent <
          (2 : K) ^ (53 + exponent) := by
        rw [zpow_add₀ two_ne_zero]
        have mantissaLtCast : (mantissa : K) < (2 : K) ^ (53 : ℤ) := by
          exact_mod_cast mantissaLt
        gcongr
      have := (Int.lt_zpow_iff_log_lt (b := 2) (by norm_num) pos
        (x := 53 + exponent)).mp (by exact_mod_cast upper)
      unfold ulpExponent
      push_cast
      omega
    · refine ⟨1, ?_, by rw [mantissaEq]; norm_num⟩
      have logEq : Int.log 2 ((mantissa : K) * (2 : K) ^ exponent) =
          53 + exponent := by
        rw [mantissaEq]
        have power : (((2 : ℕ) ^ 53 : ℕ) : K) * (2 : K) ^ exponent =
            ((2 : ℕ) : K) ^ (53 + exponent) := by
          rw [Nat.cast_ofNat, zpow_add₀ two_ne_zero]
          norm_num
        rw [power]
        exact Int.log_zpow (by norm_num) _
      unfold ulpExponent
      rw [logEq]
      push_cast
      omega
  obtain ⟨ulpBound, quotient, mantissaEq⟩ := ulpLe
  set ulp := ulpExponent ((mantissa : K) * (2 : K) ^ exponent) with ulpDef
  obtain ⟨gap, gapEq⟩ : ∃ gap : ℕ, exponent + shift = ulp + gap :=
    ⟨(exponent + shift - ulp).toNat, by omega⟩
  apply roundMagnitude_of_multiple ((quotient * 2 ^ gap : ℕ) : ℤ)
  rw [← ulpDef]
  calc
    (mantissa : K) * (2 : K) ^ exponent =
        (quotient : K) * (2 : K) ^ (exponent + shift) := by
      rw [mantissaEq, zpow_add₀ two_ne_zero]
      push_cast
      rw [zpow_natCast]
      ring
    _ = (((quotient * 2 ^ gap : ℕ) : ℤ) : K) * (2 : K) ^ ulp := by
      rw [gapEq, zpow_add₀ two_ne_zero]
      push_cast
      rw [zpow_natCast]
      ring

omit [LinearOrder K] [FloorRing K] [IsStrictOrderedRing K] in
theorem Representable.natCast {n : ℕ} (le : n ≤ 2 ^ 53) :
    Representable (n : K) :=
  ⟨n, 0, le, by norm_num, by simp⟩

omit [LinearOrder K] [FloorRing K] [IsStrictOrderedRing K] in
theorem Representable.two_zpow {exponent : ℤ} (ge : -1074 ≤ exponent) :
    Representable ((2 : K) ^ exponent) :=
  ⟨1, exponent, by norm_num, ge, by simp⟩

/-! ## Monotonicity -/

/-- A rounded magnitude stays at or above the power of two it starts from. -/
theorem two_zpow_log_le_roundMagnitude {x : K} (pos : 0 < x)
    (normal : -1022 ≤ Int.log 2 x) :
    (2 : K) ^ Int.log 2 x ≤ roundMagnitude x := by
  have lower : (2 : K) ^ Int.log 2 x ≤ x := by
    exact_mod_cast Int.zpow_log_le_self (b := 2) (by norm_num) pos
  have ulpEq : ulpExponent x = Int.log 2 x - 52 := by
    unfold ulpExponent
    omega
  have scaled : (((2 : ℤ) ^ 52 : ℤ) : K) ≤ x / (2 : K) ^ ulpExponent x := by
    rw [le_div_iff₀ (two_zpow_pos _), ulpEq]
    calc
      (((2 : ℤ) ^ 52 : ℤ) : K) * (2 : K) ^ (Int.log 2 x - 52) =
          (2 : K) ^ ((52 : ℤ) + (Int.log 2 x - 52)) := by
        rw [zpow_add₀ two_ne_zero]
        norm_num
      _ = (2 : K) ^ Int.log 2 x := by congr 1; ring
      _ ≤ x := lower
  have rounded := roundHalfEven_mono scaled
  rw [roundHalfEven_intCast] at rounded
  calc
    (2 : K) ^ Int.log 2 x =
        (((2 : ℤ) ^ 52 : ℤ) : K) * (2 : K) ^ ulpExponent x := by
      rw [ulpEq, show Int.log 2 x = (52 : ℤ) + (Int.log 2 x - 52) by ring,
        zpow_add₀ two_ne_zero]
      norm_num
    _ ≤ roundMagnitude x := by
      unfold roundMagnitude
      gcongr

/-- A rounded magnitude stays at or below the power of two above it. -/
theorem roundMagnitude_le_two_zpow {x : K} :
    roundMagnitude x ≤ (2 : K) ^ (ulpExponent x + 53) := by
  have upper : x < (2 : K) ^ (Int.log 2 x + 1) := by
    exact_mod_cast Int.lt_zpow_succ_log_self (b := 2) (by norm_num) x
  have scaled : x / (2 : K) ^ ulpExponent x ≤ (((2 : ℤ) ^ 53 : ℤ) : K) := by
    rw [div_le_iff₀ (two_zpow_pos _)]
    calc
      x ≤ (2 : K) ^ (Int.log 2 x + 1) := upper.le
      _ ≤ (2 : K) ^ ((53 : ℤ) + ulpExponent x) := by
        apply zpow_le_zpow_right₀ one_le_two
        unfold ulpExponent
        omega
      _ = (((2 : ℤ) ^ 53 : ℤ) : K) * (2 : K) ^ ulpExponent x := by
        rw [zpow_add₀ two_ne_zero]
        norm_num
  have rounded := roundHalfEven_mono scaled
  rw [roundHalfEven_intCast] at rounded
  calc
    roundMagnitude x ≤
        (((2 : ℤ) ^ 53 : ℤ) : K) * (2 : K) ^ ulpExponent x := by
      unfold roundMagnitude
      gcongr
    _ = (2 : K) ^ (ulpExponent x + 53) := by
      rw [zpow_add₀ two_ne_zero]
      norm_num
      ring

/-- Rounding keeps the order of positive magnitudes. -/
theorem roundMagnitude_mono {x y : K} (pos : 0 < x) (le : x ≤ y) :
    roundMagnitude x ≤ roundMagnitude y := by
  rcases lt_or_eq_of_le (ulpExponent_mono pos le) with ulpLt | ulpEq
  · -- On a finer grid the smaller value ends at or below the power of two
    -- from which the larger value starts.
    have yPos : 0 < y := lt_of_lt_of_le pos le
    have logGe : ulpExponent x + 53 ≤ Int.log 2 y := by
      unfold ulpExponent at *
      omega
    have normal : -1022 ≤ Int.log 2 y := by
      unfold ulpExponent at logGe
      omega
    calc
      roundMagnitude x ≤ (2 : K) ^ (ulpExponent x + 53) :=
        roundMagnitude_le_two_zpow
      _ ≤ (2 : K) ^ Int.log 2 y := zpow_le_zpow_right₀ one_le_two logGe
      _ ≤ roundMagnitude y := two_zpow_log_le_roundMagnitude yPos normal
  · unfold roundMagnitude
    rw [ulpEq]
    have rounded : roundHalfEven (x / (2 : K) ^ ulpExponent y) ≤
        roundHalfEven (y / (2 : K) ^ ulpExponent y) :=
      roundHalfEven_mono (by gcongr)
    gcongr

/-- A representable lower bound survives rounding. -/
theorem Representable.le_roundMagnitude {x y : K}
    (representable : Representable x) (pos : 0 < x) (le : x ≤ y) :
    x ≤ roundMagnitude y :=
  representable.roundMagnitude_eq.symm.le.trans (roundMagnitude_mono pos le)

/-- A representable upper bound survives rounding. -/
theorem Representable.roundMagnitude_le {x y : K}
    (representable : Representable y) (pos : 0 < x) (le : x ≤ y) :
    roundMagnitude x ≤ y :=
  (roundMagnitude_mono pos le).trans representable.roundMagnitude_eq.le

omit [LinearOrder K] [FloorRing K] [IsStrictOrderedRing K] in
theorem Representable.one : Representable (1 : K) := by
  simpa using Representable.natCast (K := K) (n := 1) (by norm_num)

theorem one_le_roundMagnitude_natCast {n : ℕ} (positive : 0 < n) :
    1 ≤ roundMagnitude (n : K) :=
  Representable.one.le_roundMagnitude one_pos (by exact_mod_cast positive)

end Binary64
