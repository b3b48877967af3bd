import Mathlib.Algebra.Order.Floor.Ring
import Mathlib.Algebra.Order.Floor.Semiring
import Mathlib.Algebra.Order.Field.Basic
import Mathlib.SetTheory.Cardinal.Finite
import Mathlib.Logic.Equiv.Fin.Basic
import Mathlib.Tactic.Linarith

/-!
# Rounding up by a seed

A number is rounded to its floor or to the integer above.  Which of the two is
decided by a seed below `bound`: as many seeds round up as the fractional part
asks for.  The result grows with the number under each seed.
-/

namespace RandomizedRounding

variable {K : Type*} [Field K] [LinearOrder K] [FloorRing K]

/-- How many of the seeds below `bound` round `x` up. -/
def threshold (bound : ℕ) (x : K) : ℕ :=
  ⌊(x - ⌊x⌋) * bound⌋₊

/-- The floor of `x`, or one more for a seed below the threshold. -/
def roundBy (bound : ℕ) (x : K) (seed : ℕ) : ℤ :=
  if seed < threshold bound x then ⌊x⌋ + 1 else ⌊x⌋

theorem roundBy_eq_floor_or (bound : ℕ) (x : K) (seed : ℕ) :
    roundBy bound x seed = ⌊x⌋ ∨ roundBy bound x seed = ⌊x⌋ + 1 := by
  unfold roundBy
  split_ifs
  · exact Or.inr rfl
  · exact Or.inl rfl

theorem floor_le_roundBy (bound : ℕ) (x : K) (seed : ℕ) :
    ⌊x⌋ ≤ roundBy bound x seed := by
  rcases roundBy_eq_floor_or bound x seed with floor | above <;> omega

theorem roundBy_le_floor_add_one (bound : ℕ) (x : K) (seed : ℕ) :
    roundBy bound x seed ≤ ⌊x⌋ + 1 := by
  rcases roundBy_eq_floor_or bound x seed with floor | above <;> omega

theorem roundBy_eq_floor_add_one_iff {bound : ℕ} {x : K} {seed : ℕ} :
    roundBy bound x seed = ⌊x⌋ + 1 ↔ seed < threshold bound x := by
  unfold roundBy
  split_ifs with below
  · exact iff_of_true rfl below
  · exact iff_of_false (by omega) below

variable [IsStrictOrderedRing K]

theorem threshold_le (bound : ℕ) (x : K) : threshold bound x ≤ bound := by
  have fractLe : (x - ⌊x⌋) * bound ≤ bound := by
    have := (Int.fract_lt_one x).le
    exact mul_le_of_le_one_left (Nat.cast_nonneg bound) this
  exact Nat.floor_le_of_le fractLe

theorem roundBy_le_ceil (bound : ℕ) (x : K) (seed : ℕ) :
    roundBy bound x seed ≤ ⌈x⌉ := by
  rcases (Int.floor_le x).eq_or_lt with integral | above
  · have zero : threshold bound x = 0 := by
      unfold threshold
      rw [integral, sub_self, zero_mul, Nat.floor_zero]
    unfold roundBy
    rw [zero, if_neg (Nat.not_lt_zero _)]
    exact Int.floor_le_ceil x
  · have := Int.lt_ceil.mpr above
    exact (roundBy_le_floor_add_one bound x seed).trans this

/-- Exactly the share of the seeds that the fractional part asks for. -/
theorem natCard_roundBy_eq_floor_add_one {Seed : Type*} {bound : ℕ}
    (toFin : Seed ≃ Fin bound) (x : K) :
    Nat.card {seed // roundBy bound x (toFin seed) = ⌊x⌋ + 1} =
      threshold bound x := by
  have below : {seed // roundBy bound x (toFin seed) = ⌊x⌋ + 1} ≃
      {seed : Fin bound // seed < threshold bound x} :=
    toFin.subtypeEquiv fun _ => roundBy_eq_floor_add_one_iff
  rw [Nat.card_congr below,
    ← Nat.card_congr (Fin.castLEquiv (threshold_le bound x)), Nat.card_fin]

/-- Between two integers the threshold grows; across an integer the floor
does. -/
theorem roundBy_mono (bound : ℕ) {x y : K} (le : x ≤ y) (seed : ℕ) :
    roundBy bound x seed ≤ roundBy bound y seed := by
  rcases lt_or_eq_of_le (Int.floor_le_floor le) with floorLt | floorEq
  · calc
      roundBy bound x seed ≤ ⌊x⌋ + 1 := roundBy_le_floor_add_one bound x seed
      _ ≤ ⌊y⌋ := floorLt
      _ ≤ roundBy bound y seed := floor_le_roundBy bound y seed
  · have thresholdLe : threshold bound x ≤ threshold bound y := by
      unfold threshold
      rw [floorEq]
      gcongr
    unfold roundBy
    rw [floorEq]
    split_ifs <;> omega

end RandomizedRounding
