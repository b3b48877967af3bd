import VirtualPeople.Binary64.Arithmetic
import VirtualPeople.JumpHash
import VirtualPeople.Messages

/-!
# Jump consistent hashing

The loop of `JumpConsistentHash` over a 64-bit key and a 32-bit bucket count.
The quotient of the step is at least one after rounding, so the jump always
grows and the loop ends; its result is a bucket when there are any, and `-1`
when the count is not positive.
-/

namespace VirtualPeople

/-! ## Integer conversions -/

/-- `static_cast<int32_t>` of an unsigned 64-bit integer. -/
def toInt32 (value : UInt64) : Int32 :=
  value.toUInt32.toInt32

/-- The implicit conversion of a signed 32-bit integer to `uint64_t`. -/
def signExtend (value : Int32) : UInt64 :=
  value.toInt64.toUInt64

/-- Narrowing to 32 bits takes the balanced remainder. -/
theorem toInt_toInt32 (value : UInt64) :
    (toInt32 value).toInt = Int.bmod value.toNat (2 ^ 32) := by
  change value.toUInt32.toBitVec.toInt = _
  rw [BitVec.toInt_eq_toNat_bmod, UInt32.toNat_toBitVec,
    UInt64.toNat_toUInt32]
  push_cast
  exact Int.emod_bmod ..

/-- A value that fits is converted unchanged. -/
theorem toInt_toInt32_of_lt {value : UInt64} (lt : value.toNat < 2 ^ 31) :
    (toInt32 value).toInt = value.toNat := by
  rw [toInt_toInt32]
  exact Int.bmod_eq_of_le (by omega) (by omega)

/-- Widening a number that is not negative keeps it. -/
theorem toNat_signExtend {value : Int32} (nonneg : 0 ≤ value.toInt) :
    (signExtend value).toNat = value.toInt.toNat := by
  have same : value.toInt64.toInt = value.toInt := Int32.toInt_toInt64 value
  rw [← same] at nonneg ⊢
  change value.toInt64.toBitVec.toNat = value.toInt64.toBitVec.toInt.toNat
  change 0 ≤ value.toInt64.toBitVec.toInt at nonneg
  rw [BitVec.toInt_eq_toNat_cond] at nonneg ⊢
  have := value.toInt64.toBitVec.isLt
  split_ifs at nonneg ⊢ <;> omega

@[simp] theorem signExtend_neg_one : signExtend (-1) = -1 := by
  decide

namespace Cc

open Binary64

/-! ## One jump -/

/-- The key of the next round. -/
def nextKey (key : UInt64) : UInt64 :=
  key * 2862933555777941757 + 1

/-- `1LL << 31` -/
def shiftedOne : UInt64 :=
  (1 : UInt64) <<< (31 : UInt64)

/-- The floating point value of the next jump. -/
def jumpTarget (key : UInt64) (j : ℕ) : Float :=
  (UInt64.ofNat (j + 1)).toFloat *
    (shiftedOne.toFloat / ((key >>> 33) + 1).toFloat)

/-- The next value of `j`, converted back to an integer. -/
def nextJump (key : UInt64) (j : ℕ) : ℕ :=
  ((truncate (jumpTarget key j)).getD 0).toNat

/-- Rounding to nearest, as the processor does it. -/
noncomputable def toNearest : JumpHash.Rounding ℝ where
  round := roundMagnitude
  mono := roundMagnitude_mono
  natCast _ le := (Representable.natCast le).roundMagnitude_eq
  twoPow exponent := by
    have representable : Representable ((2 : ℝ) ^ (exponent : ℤ)) :=
      Representable.two_zpow (by omega)
    exact_mod_cast representable.roundMagnitude_eq

/-- The rounded quotient `2 ^ 31 / (r + 1)` with `r < 2 ^ 31`. -/
theorem represents_bucketQuotient (key : UInt64) :
    Represents (shiftedOne.toFloat / ((key >>> 33) + 1).toFloat)
      (toNearest.quotient key) := by
  have ⟨lower, upper⟩ := JumpHash.Rounding.div_divisor_mem (K := ℝ) key
  have numerator : Represents shiftedOne.toFloat ((2 : ℝ) ^ 31) := by
    have exact := represents_toFloat_exact (n := shiftedOne) (by decide)
    have : (shiftedOne.toNat : ℝ) = (2 : ℝ) ^ 31 := by
      rw [show shiftedOne.toNat = 2 ^ 31 by decide]
      norm_num
    rwa [this] at exact
  have divisorLe := JumpHash.divisor_le key
  have denominator : Represents ((key >>> 33) + 1).toFloat
      (JumpHash.divisor key) :=
    represents_toFloat_exact (by unfold JumpHash.divisor at divisorLe; omega)
  have positive : (0 : ℝ) < JumpHash.divisor key := by
    exact_mod_cast JumpHash.divisor_pos key
  rw [JumpHash.Rounding.quotient_eq]
  exact numerator.div denominator (by positivity) positive
    (.of_le_two_pow lower upper (by norm_num))

/-- The rounded product is converted to an integer that fits. -/
theorem truncate_jumpTarget_eq (key : UInt64) {j : ℕ} (lt : j < 2 ^ 31) :
    truncate (jumpTarget key j) = some (toNearest.jump key j : ℤ) := by
  have ⟨quotientGe, _⟩ := toNearest.quotient_mem key
  have ⟨targetGe, _⟩ := toNearest.target_mem key lt
  have sumEq : (UInt64.ofNat (j + 1)).toNat = j + 1 := by
    rw [UInt64.toNat_ofNat']
    omega
  have representsSum := represents_toFloat_exact (n := UInt64.ofNat (j + 1))
    (by rw [sumEq]; omega)
  rw [sumEq] at representsSum
  have sumPos : (1 : ℝ) ≤ (j + 1 : ℕ) := by exact_mod_cast Nat.le_add_left 1 j
  have ⟨productGe, productLe⟩ := toNearest.product_mem key lt
  have represents : Represents (jumpTarget key j) (toNearest.target key j) :=
    representsSum.mul (represents_bucketQuotient key) (by linarith)
      (by linarith) (.of_le_two_pow (sumPos.trans productGe) productLe
        (by norm_num))
  rw [represents.truncate, JumpHash.Rounding.jump,
    Int.natCast_floor_eq_floor (by linarith)]

/-- The jump in doubles is the jump of the rounding to nearest. -/
theorem nextJump_eq (key : UInt64) {j : ℕ} (lt : j < 2 ^ 31) :
    nextJump key j = toNearest.jump key j := by
  rw [nextJump, truncate_jumpTarget_eq key lt, Option.getD_some,
    Int.toNat_natCast]

/-- The conversion of a jump to `int64_t` is in range, and the jump grows. -/
theorem truncate_jumpTarget (key : UInt64) {j : ℕ} (lt : j < 2 ^ 31) :
    truncate (jumpTarget key j) = some (nextJump key j : ℤ) ∧
      j + 1 ≤ nextJump key j ∧ nextJump key j ≤ 2 ^ 62 := by
  rw [nextJump_eq key lt]
  exact ⟨truncate_jumpTarget_eq key lt, toNearest.lt_jump key lt,
    toNearest.jump_le key lt⟩

/-! ## The loop -/

/-- The loop of `JumpConsistentHash`, from the last bucket `b` and the next jump
`j`. -/
def jumpConsistentHashLoop (numBuckets : Int32) (key : UInt64) (b : Int32)
    (j : ℕ) : Int32 :=
  if (j : ℤ) < numBuckets.toInt then
    jumpConsistentHashLoop numBuckets (nextKey key) (Int32.ofInt j)
      (nextJump (nextKey key) j)
  else b
  termination_by (numBuckets.toInt - j).toNat
  decreasing_by
    have := numBuckets.toInt_lt
    have := (truncate_jumpTarget (nextKey key) (j := j) (by omega)).2.1
    omega

/-- `JumpConsistentHash`. -/
def jumpConsistentHash (key : UInt64) (numBuckets : Int32) : Int32 :=
  jumpConsistentHashLoop numBuckets key (-1) 0

/-- Without buckets the hash is -1. -/
theorem jumpConsistentHash_of_nonpos (key : UInt64) {numBuckets : Int32}
    (nonpos : numBuckets.toInt ≤ 0) :
    jumpConsistentHash key numBuckets = -1 := by
  unfold jumpConsistentHash jumpConsistentHashLoop
  rw [if_neg (by simpa using nonpos)]

/-- The loop in doubles is the loop of the rounding to nearest. -/
theorem jumpConsistentHashLoop_eq (numBuckets : Int32) (key : UInt64)
    (b : Int32) (j : ℕ) :
    jumpConsistentHashLoop numBuckets key b j =
      toNearest.loop numBuckets key b j := by
  fun_induction jumpConsistentHashLoop numBuckets key b j with
  | case1 key b j inside inductionHypothesis =>
    have := numBuckets.toInt_lt
    rw [JumpHash.Rounding.loop, if_pos inside, inductionHypothesis,
      nextJump_eq _ (show j < 2 ^ 31 by omega)]
    rfl
  | case2 key b j outside => rw [JumpHash.Rounding.loop, if_neg outside]

/-- The processor computes the loop with rounding to nearest. -/
theorem jumpConsistentHash_eq (key : UInt64) (numBuckets : Int32) :
    jumpConsistentHash key numBuckets = toNearest.hash key numBuckets :=
  jumpConsistentHashLoop_eq numBuckets key (-1) 0

/-- The hash is one of the buckets. -/
theorem jumpConsistentHash_mem (key : UInt64) {numBuckets : Int32}
    (positive : 0 < numBuckets.toInt) :
    0 ≤ (jumpConsistentHash key numBuckets).toInt ∧
      (jumpConsistentHash key numBuckets).toInt < numBuckets.toInt := by
  rw [jumpConsistentHash_eq]
  exact toNearest.hash_mem key positive

/-- Buckets that are added keep a key where it is, or get it. -/
theorem jumpConsistentHash_of_le (key : UInt64) {small large : Int32}
    (le : small.toInt ≤ large.toInt) :
    jumpConsistentHash key large = jumpConsistentHash key small ∨
      small.toInt ≤ (jumpConsistentHash key large).toInt := by
  rw [jumpConsistentHash_eq, jumpConsistentHash_eq]
  exact toNearest.hash_of_le le key

/-- The bucket of a count that fits, as the unsigned integer it becomes. -/
theorem toNat_jumpConsistentHash_lt (key : UInt64) {count : UInt64}
    (positive : 0 < count.toNat) (lt : count.toNat < 2 ^ 31) :
    (signExtend (jumpConsistentHash key (toInt32 count))).toNat <
      count.toNat := by
  have countEq := toInt_toInt32_of_lt lt
  obtain ⟨nonneg, bound⟩ :=
    @jumpConsistentHash_mem key (toInt32 count) (by omega)
  rw [toNat_signExtend nonneg]
  omega

end Cc

end VirtualPeople
