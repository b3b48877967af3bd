import VirtualPeople.Binary64.Rounding

/-!
# Jump consistent hashing with any rounding

The loop of `JumpConsistentHash` with its division and its product rounded by
any monotone function that fixes the integers up to `2 ^ 53` and the powers of
two.  The rounded quotient is at least one, so that every jump goes forward and
the loop ends; it is at most `2 ^ 31`, so that no jump leaves 64 bits.  The
bucket for a larger count is the one for the smaller count, or a new bucket.
-/

namespace VirtualPeople.JumpHash

/-- Rounding of positive numbers. -/
structure Rounding (K : Type*) [Field K] [LinearOrder K]
    [IsStrictOrderedRing K] where
  round : K → K
  mono : ∀ {x y : K}, 0 < x → x ≤ y → round x ≤ round y
  natCast : ∀ n : ℕ, n ≤ 2 ^ 53 → round n = n
  twoPow : ∀ exponent : ℕ, round (2 ^ exponent) = 2 ^ exponent

variable {K : Type*} [Field K] [LinearOrder K] [IsStrictOrderedRing K]
  (rounding : Rounding K)

/-! ## One jump -/

/-- The key of the next jump. -/
def nextKey (key : UInt64) : UInt64 :=
  key * 2862933555777941757 + 1

/-- `(key >> 33) + 1` -/
def divisor (key : UInt64) : ℕ :=
  ((key >>> 33) + 1).toNat

theorem divisor_eq (key : UInt64) : divisor key = key.toNat / 2 ^ 33 + 1 := by
  have := key.toNat_lt
  rw [divisor, UInt64.toNat_add, UInt64.toNat_shiftRight,
    Nat.shiftRight_eq_div_pow]
  change (key.toNat / 2 ^ 33 + 1) % 2 ^ 64 = _
  omega

theorem divisor_pos (key : UInt64) : 0 < divisor key := by
  rw [divisor_eq]
  omega

theorem divisor_le (key : UInt64) : divisor key ≤ 2 ^ 31 := by
  have := key.toNat_lt
  rw [divisor_eq]
  omega

namespace Rounding

/-- The rounded quotient that a jump multiplies by. -/
def quotient (key : UInt64) : K :=
  rounding.round (((2 ^ 31 : ℕ) : K) / (divisor key : K))

theorem div_divisor_mem (key : UInt64) :
    1 ≤ 2 ^ 31 / (divisor key : K) ∧ 2 ^ 31 / (divisor key : K) ≤ 2 ^ 31 := by
  have lower : (1 : K) ≤ divisor key := by exact_mod_cast divisor_pos key
  have upper : (divisor key : K) ≤ 2 ^ 31 := by exact_mod_cast divisor_le key
  refine ⟨?_, div_le_self (by positivity) lower⟩
  rwa [one_le_div (by linarith)]

theorem quotient_eq (key : UInt64) :
    rounding.quotient key = rounding.round (2 ^ 31 / (divisor key : K)) := by
  rw [quotient, Nat.cast_pow, Nat.cast_ofNat]

theorem quotient_mem (key : UInt64) :
    1 ≤ rounding.quotient key ∧ rounding.quotient key ≤ 2 ^ 31 := by
  have ⟨lower, upper⟩ := div_divisor_mem (K := K) key
  rw [quotient_eq]
  constructor
  · calc
      (1 : K) = rounding.round ((1 : ℕ) : K) := by
        rw [rounding.natCast 1 (by norm_num), Nat.cast_one]
      _ ≤ rounding.round (2 ^ 31 / (divisor key : K)) :=
        rounding.mono (by norm_num) (by rwa [Nat.cast_one])
  · calc
      rounding.round (2 ^ 31 / (divisor key : K)) ≤
          rounding.round (2 ^ 31) :=
        rounding.mono (by linarith) upper
      _ = 2 ^ 31 := rounding.twoPow 31

/-- The product that is converted back to an integer. -/
def target (key : UInt64) (j : ℕ) : K :=
  rounding.round (((j + 1 : ℕ) : K) * rounding.quotient key)

theorem product_mem (key : UInt64) {j : ℕ} (lt : j < 2 ^ 31) :
    ((j + 1 : ℕ) : K) ≤ (j + 1 : ℕ) * rounding.quotient key ∧
      ((j + 1 : ℕ) : K) * rounding.quotient key ≤ 2 ^ 62 := by
  have ⟨lower, upper⟩ := rounding.quotient_mem key
  have le : ((j + 1 : ℕ) : K) ≤ 2 ^ 31 := by exact_mod_cast lt
  refine ⟨le_mul_of_one_le_right (Nat.cast_nonneg _) lower, ?_⟩
  calc
    ((j + 1 : ℕ) : K) * rounding.quotient key ≤ 2 ^ 31 * 2 ^ 31 := by gcongr
    _ = 2 ^ 62 := by norm_num

theorem target_mem (key : UInt64) {j : ℕ} (lt : j < 2 ^ 31) :
    ((j + 1 : ℕ) : K) ≤ rounding.target key j ∧
      rounding.target key j ≤ 2 ^ 62 := by
  have ⟨productGe, productLe⟩ := rounding.product_mem key lt
  have positive : (0 : K) < (j + 1 : ℕ) := by exact_mod_cast Nat.succ_pos j
  constructor
  · calc
      ((j + 1 : ℕ) : K) = rounding.round ((j + 1 : ℕ) : K) :=
        (rounding.natCast _ (by omega)).symm
      _ ≤ rounding.target key j := rounding.mono positive productGe
  · calc
      rounding.target key j ≤ rounding.round (2 ^ 62) :=
        rounding.mono (positive.trans_le productGe) productLe
      _ = 2 ^ 62 := rounding.twoPow 62

variable [FloorRing K]

/-- The value of `j` after the jump. -/
def jump (key : UInt64) (j : ℕ) : ℕ :=
  ⌊rounding.target key j⌋₊

theorem lt_jump (key : UInt64) {j : ℕ} (lt : j < 2 ^ 31) :
    j < rounding.jump key j :=
  Nat.le_floor (rounding.target_mem key lt).1

theorem jump_le (key : UInt64) {j : ℕ} (lt : j < 2 ^ 31) :
    rounding.jump key j ≤ 2 ^ 62 := by
  refine Nat.floor_le_of_le ((rounding.target_mem key lt).2.trans_eq ?_)
  norm_num

/-! ## The loop -/

/-- The loop of the hash, from the last bucket `b` and the next jump `j`. -/
def loop (numBuckets : Int32) (key : UInt64) (b : Int32) (j : ℕ) : Int32 :=
  if (j : ℤ) < numBuckets.toInt then
    loop numBuckets (nextKey key) (Int32.ofInt j)
      (rounding.jump (nextKey key) j)
  else b
  termination_by (numBuckets.toInt - j).toNat
  decreasing_by
    have := numBuckets.toInt_lt
    have grows := rounding.lt_jump (nextKey key) (show j < 2 ^ 31 by omega)
    omega

/-- The jump consistent hash over rounded numbers. -/
def hash (key : UInt64) (numBuckets : Int32) : Int32 :=
  rounding.loop numBuckets key (-1) 0

/-- The key and `j` after one round of the loop. -/
def step (state : UInt64 × ℕ) : UInt64 × ℕ :=
  (nextKey state.1, rounding.jump (nextKey state.1) state.2)

@[simp] theorem step_mk (key : UInt64) (j : ℕ) :
    rounding.step (key, j) = (nextKey key, rounding.jump (nextKey key) j) :=
  rfl

/-- The values of `j` in a loop that goes on. -/
def jumps (key : UInt64) (round : ℕ) : ℕ :=
  (rounding.step^[round] (key, 0)).2

/-- `j` grows in every round, and is never converted out of range. -/
theorem jumps_succ (key : UInt64) {round : ℕ}
    (lt : rounding.jumps key round < 2 ^ 31) :
    rounding.jumps key round < rounding.jumps key (round + 1) ∧
      rounding.jumps key (round + 1) ≤ 2 ^ 62 := by
  unfold jumps at lt ⊢
  rw [Function.iterate_succ_apply']
  exact ⟨rounding.lt_jump _ lt, rounding.jump_le _ lt⟩

variable {numBuckets : Int32}

/-- The loop ends after a number of rounds, with the value of `j` before the
last one. -/
theorem exists_rounds (numBuckets : Int32) (key : UInt64) (b : Int32) (j : ℕ) :
    ∃ rounds ≤ (numBuckets.toInt - j).toNat,
      (∀ round < rounds,
        ((rounding.step^[round] (key, j)).2 : ℤ) < numBuckets.toInt) ∧
      numBuckets.toInt ≤ (rounding.step^[rounds] (key, j)).2 ∧
      rounding.loop numBuckets key b j =
        match rounds with
        | 0 => b
        | last + 1 => Int32.ofInt (rounding.step^[last] (key, j)).2 := by
  fun_induction rounding.loop numBuckets key b j with
  | case1 key b j inside inductionHypothesis =>
    have := numBuckets.toInt_lt
    have grows := rounding.lt_jump (nextKey key) (show j < 2 ^ 31 by omega)
    rw [← step_mk] at inductionHypothesis
    obtain ⟨rounds, fewer, before, after, resultEq⟩ := inductionHypothesis
    refine ⟨rounds + 1, by omega, ?_, ?_, ?_⟩
    · rintro (_ | round) lt
      · exact inside
      · rw [Function.iterate_succ_apply]
        exact before round (by omega)
    · rw [Function.iterate_succ_apply]
      exact after
    · rw [resultEq]
      cases rounds with
      | zero => rfl
      | succ last =>
        simp only
        rw [Function.iterate_succ_apply]
  | case2 key b j outside => exact ⟨0, by omega, nofun, by simpa using outside, rfl⟩

theorem hash_eq_jumps (key : UInt64) (positive : 0 < numBuckets.toInt) :
    ∃ last : ℕ, last < numBuckets.toInt ∧
      (∀ round ≤ last, rounding.jumps key round < numBuckets.toInt) ∧
      numBuckets.toInt ≤ rounding.jumps key (last + 1) ∧
      (rounding.hash key numBuckets).toInt = rounding.jumps key last := by
  obtain ⟨rounds, fewer, before, after, resultEq⟩ :=
    rounding.exists_rounds numBuckets key (-1) 0
  cases rounds with
  | zero => exact absurd after (by simpa using positive)
  | succ last =>
    have below := before last (by omega)
    have := numBuckets.toInt_lt
    refine ⟨last, by omega, fun round le => before round (by omega), after, ?_⟩
    rw [hash, resultEq]
    exact Int32.toInt_ofInt_of_le (by omega) (by omega)

theorem hash_mem (key : UInt64) (positive : 0 < numBuckets.toInt) :
    0 ≤ (rounding.hash key numBuckets).toInt ∧
      (rounding.hash key numBuckets).toInt < numBuckets.toInt := by
  obtain ⟨last, -, before, -, hashEq⟩ := rounding.hash_eq_jumps key positive
  rw [hashEq]
  exact ⟨Int.natCast_nonneg _, before last le_rfl⟩

/-! ## More buckets -/

/-- The result of the loop is not before the bucket that it starts with. -/
theorem le_loop (key : UInt64) {b : Int32} {j : ℕ} (le : b.toInt ≤ j) :
    b.toInt ≤ (rounding.loop numBuckets key b j).toInt := by
  fun_induction rounding.loop numBuckets key b j with
  | case1 key b j inside inductionHypothesis =>
    have := numBuckets.toInt_lt
    have grows := rounding.lt_jump (nextKey key) (show j < 2 ^ 31 by omega)
    have jumpEq : (Int32.ofInt j).toInt = j :=
      Int32.toInt_ofInt_of_le (by omega) (by omega)
    exact le.trans (jumpEq.symm.trans_le (inductionHypothesis (by omega)))
  | case2 key b j outside => exact le_rfl

theorem loop_of_le {large : Int32} (le : numBuckets.toInt ≤ large.toInt)
    (key : UInt64) (b : Int32) (j : ℕ) :
    rounding.loop large key b j = rounding.loop numBuckets key b j ∨
      numBuckets.toInt ≤ (rounding.loop large key b j).toInt := by
  fun_induction rounding.loop numBuckets key b j with
  | case1 key b j inside inductionHypothesis =>
    rw [loop, if_pos (inside.trans_le le)]
    exact inductionHypothesis
  | case2 key b j outside =>
    rw [loop]
    split_ifs with inLarge
    · right
      have := large.toInt_lt
      have grows := rounding.lt_jump (nextKey key) (show j < 2 ^ 31 by omega)
      have jumpEq : (Int32.ofInt j).toInt = j :=
        Int32.toInt_ofInt_of_le (by omega) (by omega)
      have le' : (Int32.ofInt j).toInt ≤ rounding.jump (nextKey key) j := by
        omega
      have := @le_loop _ _ _ _ rounding _ large (nextKey key) _ _ le'
      omega
    · exact .inl rfl

/-- Buckets that are added keep a key where it is, or get it. -/
theorem hash_of_le {large : Int32} (le : numBuckets.toInt ≤ large.toInt)
    (key : UInt64) :
    rounding.hash key large = rounding.hash key numBuckets ∨
      numBuckets.toInt ≤ (rounding.hash key large).toInt :=
  rounding.loop_of_le le key (-1) 0

theorem hash_add_one (key : UInt64) (positive : 0 < numBuckets.toInt)
    (lt : numBuckets.toInt < 2 ^ 31 - 1) :
    rounding.hash key (numBuckets + 1) = rounding.hash key numBuckets ∨
      rounding.hash key (numBuckets + 1) = numBuckets := by
  have sumEq : (numBuckets + 1).toInt = numBuckets.toInt + 1 := by
    rw [Int32.toInt_add, Int32.toInt_one]
    exact Int.bmod_eq_of_le (by omega) (by omega)
  have le : numBuckets.toInt ≤ (numBuckets + 1).toInt := by omega
  rcases rounding.hash_of_le le key with same | added
  · exact .inl same
  · have sumPos : 0 < (numBuckets + 1).toInt := by omega
    have ⟨_, below⟩ := rounding.hash_mem key sumPos
    exact .inr (Int32.toInt_inj.mp (by omega))

end Rounding

end VirtualPeople.JumpHash
