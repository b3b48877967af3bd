import VirtualPeople.Cc.ConsistentHash
import VirtualPeople.Cc.Feistel

/-!
# Hashing to buckets and permuting, in Kotlin

The Kotlin library has its own jump consistent hash and its own Feistel
permutation.  Its conversions saturate where those of C++ have no meaning, but
none of the conversions here leaves its range, so both pairs agree.
-/

namespace VirtualPeople.Kotlin

open Binary64

/-! ## Conversions -/

/-- `Double.toLong()`: the integer part, moved to the nearest bound of the type
when it is outside, and zero for a value that is not a number. -/
def toLong (value : Float) : Int64 :=
  match truncate value with
  | some integer => Int64.ofInt (max (-2 ^ 63) (min (2 ^ 63 - 1) integer))
  | none =>
    if value.isNaN then 0
    else if value < 0.0 then Int64.minValue
    else Int64.maxValue

theorem toInt_toLong {value : Float} {integer : ℤ}
    (truncated : truncate value = some integer)
    (lower : -2 ^ 63 ≤ integer) (upper : integer < 2 ^ 63) :
    (toLong value).toInt = integer := by
  simp only [toLong, truncated]
  rw [min_eq_right (by omega), max_eq_right lower]
  exact Int64.toInt_ofInt_of_le lower upper

/-! ## Jump consistent hashing -/

/-- `(1L shl 31).toDouble()` -/
def numerator : Float :=
  ((1 : UInt64) <<< (31 : UInt64)).toFloat

/-- The next value of `nextKey`. -/
def advance (nextKey : UInt64) : UInt64 :=
  nextKey * 2862933555777941757 + 1

/-- The next value of `j`. -/
def nextJump (nextKey : UInt64) (j : ℕ) : ℕ :=
  (toLong ((UInt64.ofNat (j + 1)).toFloat *
    (numerator / ((nextKey >>> 33) + 1).toFloat))).toInt.toNat

theorem nextJump_eq (nextKey : UInt64) {j : ℕ} (lt : j < 2 ^ 31) :
    nextJump nextKey j = Cc.nextJump nextKey j := by
  obtain ⟨truncated, -, upper⟩ := Cc.truncate_jumpTarget nextKey lt
  have converted := toInt_toLong truncated (by omega) (by omega)
  exact (congrArg Int.toNat converted).trans (Int.toNat_natCast _)

/-- The loop of `jumpConsistentHash`. -/
def jumpConsistentHashLoop (numBuckets : Int32) (nextKey : UInt64) (b : Int32)
    (j : ℕ) : Int32 :=
  if (j : ℤ) < numBuckets.toInt then
    jumpConsistentHashLoop numBuckets (advance nextKey) (Int32.ofInt j)
      (nextJump (advance nextKey) j)
  else b
  termination_by (numBuckets.toInt - j).toNat
  decreasing_by
    have := numBuckets.toInt_lt
    have grows := (Cc.truncate_jumpTarget (advance nextKey) (j := j)
      (by omega)).2.1
    rw [← nextJump_eq _ (by omega)] at grows
    omega

/-- `jumpConsistentHash`. -/
def jumpConsistentHash (key : UInt64) (numBuckets : Int32) : Int32 :=
  jumpConsistentHashLoop numBuckets key (-1) 0

theorem jumpConsistentHashLoop_eq (numBuckets : Int32) (nextKey : UInt64)
    (b : Int32) (j : ℕ) :
    jumpConsistentHashLoop numBuckets nextKey b j =
      Cc.jumpConsistentHashLoop numBuckets nextKey b j := by
  fun_induction Cc.jumpConsistentHashLoop numBuckets nextKey b j with
  | case1 key b j inside inductionHypothesis =>
    have := numBuckets.toInt_lt
    rw [jumpConsistentHashLoop, if_pos inside, ← inductionHypothesis]
    rw [nextJump_eq _ (show j < 2 ^ 31 by omega)]
    rfl
  | case2 key b j outside =>
    rw [jumpConsistentHashLoop, if_neg outside]

/-- Both languages hash to the same bucket. -/
@[simp] theorem jumpConsistentHash_eq (key : UInt64) (numBuckets : Int32) :
    jumpConsistentHash key numBuckets = Cc.jumpConsistentHash key numBuckets :=
  jumpConsistentHashLoop_eq numBuckets key (-1) 0

/-- For every rounding the loop ends, `j` grows and stays in range, the result
is a bucket, and another bucket takes keys only for itself.  Both languages
compute the loop with rounding to nearest. -/
theorem jumpConsistentHash_consistent {K : Type*} [Field K] [LinearOrder K]
    [IsStrictOrderedRing K] [FloorRing K] (rounding : JumpHash.Rounding K)
    (key : UInt64) {numBuckets : Int32} (positive : 0 < numBuckets.toInt) :
    (∃ last : ℕ, last < numBuckets.toInt ∧
      (∀ round ≤ last, rounding.jumps key round < numBuckets.toInt) ∧
      numBuckets.toInt ≤ rounding.jumps key (last + 1) ∧
      (rounding.hash key numBuckets).toInt = rounding.jumps key last) ∧
    (∀ round, rounding.jumps key round < numBuckets.toInt →
      rounding.jumps key round < rounding.jumps key (round + 1) ∧
        rounding.jumps key (round + 1) ≤ 2 ^ 62) ∧
    (0 ≤ (rounding.hash key numBuckets).toInt ∧
      (rounding.hash key numBuckets).toInt < numBuckets.toInt) ∧
    (numBuckets.toInt < 2 ^ 31 - 1 →
      rounding.hash key (numBuckets + 1) = rounding.hash key numBuckets ∨
        rounding.hash key (numBuckets + 1) = numBuckets) ∧
    Cc.jumpConsistentHash key numBuckets = Cc.toNearest.hash key numBuckets ∧
    jumpConsistentHash key numBuckets = Cc.toNearest.hash key numBuckets := by
  refine ⟨rounding.hash_eq_jumps key positive, fun round inside => ?_,
    rounding.hash_mem key positive, rounding.hash_add_one key positive,
    Cc.jumpConsistentHash_eq key numBuckets, ?_⟩
  · have := numBuckets.toInt_lt
    exact rounding.jumps_succ key (by omega)
  · rw [jumpConsistentHash_eq, Cc.jumpConsistentHash_eq]

theorem jumpConsistentHash_consistent_three :
    (jumpConsistentHash 7 3).toInt < 3 ∧
      (Cc.jumpConsistentHash 7 4 = Cc.jumpConsistentHash 7 3 ∨
        Cc.jumpConsistentHash 7 4 = 3) := by
  have ⟨_, _, inside, added, sameCc, sameKotlin⟩ :=
    @jumpConsistentHash_consistent ℝ _ _ _ _ Cc.toNearest 7 3 (by decide)
  rw [sameKotlin, sameCc, Cc.jumpConsistentHash_eq]
  exact ⟨inside.2, added (by decide)⟩

/-! ## The Feistel permutation -/

namespace Feistel

variable (X : Externals)

/-- One of the four repetitions: the next left and right parts. -/
def round (half : UInt64) (seed : String) (block : UInt64 × UInt64)
    (round : ℕ) : UInt64 × UInt64 :=
  let (left, right) := block
  let roundHash := X.fingerprint
    (seed ++ "-feistel-" ++ toString round ++ "-" ++ toString right)
  let newRight := (left + roundHash % half) % half
  (right, newRight)

/-- A pass over the four rounds of the network. -/
def pass (half : UInt64) (seed : String) (current : UInt64) : UInt64 :=
  let (left, right) := (List.range 4).foldl (round X half seed)
    (current / half, current % half)
  left * half + right

/-- `Feistel.permute`: passes until the value is inside of the domain again. -/
def permute (value domainSize : UInt64) (seed : String) : Result UInt64 :=
  if domainSize ≤ 1 then .ok 0
  else
    let half := (ceil domainSize.toFloat.sqrt).toUInt64
    match CycleWalk.walk (pass X half seed) (· < domainSize) (2 ^ 64) value with
    | some current => .ok current
    | none => .error .divergence

/-- Both languages permute alike. -/
@[simp] theorem permute_eq (value domainSize : UInt64) (seed : String) :
    permute X value domainSize seed =
      Cc.feistelPermute X seed value domainSize := rfl

/-- Both languages walk every value of the domain to the first point of its
orbit inside, and this permutes the domain. -/
theorem permutes_domain (seed : String) {domainSize : UInt64}
    (twoLe : 2 ≤ domainSize.toNat) (le : domainSize.toNat ≤ 2 ^ 31 - 1) :
    (Cc.feistelHalf domainSize).toNat = ⌈Real.sqrt domainSize.toNat⌉₊ ∧
    ∃ permutation : Equiv.Perm {value : UInt64 // value < domainSize},
      ∀ value,
        Cc.feistelPermute X seed value.1 domainSize =
            .ok (permutation value).1 ∧
          permute X value.1 domainSize seed = .ok (permutation value).1 ∧
          ∃ passes,
            (Cc.feistelPass X seed (Cc.feistelHalf domainSize))^[passes + 1]
                value.1 = (permutation value).1 ∧
              ∀ earlier < passes,
                ¬(Cc.feistelPass X seed
                  (Cc.feistelHalf domainSize))^[earlier + 1] value.1 <
                    domainSize := by
  have lt : domainSize.toNat < 2 ^ 31 := by omega
  have large : 1 < domainSize := by
    rw [UInt64.lt_iff_toNat_lt, UInt64.toNat_one]
    exact twoLe
  obtain ⟨permutation, permutationEq⟩ :=
    Cc.exists_perm_feistelPermute X seed lt
  refine ⟨Cc.feistelHalf_eq_ceil_sqrt (by omega) lt, permutation, ?_⟩
  intro value
  refine ⟨permutationEq value, ?_,
    Cc.exists_passes_of_feistelPermute X seed large (permutationEq value)⟩
  rw [permute_eq]
  exact permutationEq value

/-- A domain of seven values, whose half is three. -/
theorem permutes_domain_seven :
    ∃ permutation : Equiv.Perm {value : UInt64 // value < 7},
      ∀ value, permute .constant value.1 7 "seed" =
        .ok (permutation value).1 := by
  obtain ⟨-, permutation, spec⟩ :=
    permutes_domain .constant "seed" (show 2 ≤ (7 : UInt64).toNat by decide)
      (by decide)
  exact ⟨permutation, fun value => (spec value).2.1⟩

end Feistel

end VirtualPeople.Kotlin
