import VirtualPeople.Binary64.FractionalPart
import VirtualPeople.Cc.Multiplicity
import VirtualPeople.RandomizedRounding

/-!
# The exact number of clones

On every double below `2 ^ 31` the count of clones is the count of exact
arithmetic: no step of the floating point computation rounds.  The exact count
is a rounding by a seed, so that it grows with the expectation, and a larger
expectation appends clones to those of a smaller one.
-/

namespace VirtualPeople.Cc

open Binary64
open RandomizedRounding

/-! ## Exact arithmetic -/

/-- `computeBimodalInteger` without rounding, where `uint64Max` becomes
`2 ^ 64` as its conversion to a double does. -/
def exactBimodalInteger {K : Type*} [Field K] [LinearOrder K] [FloorRing K]
    (expectation : K) (seed : UInt64) : ℤ :=
  let integralPart := ⌊expectation⌋
  let fractionalPart := expectation - integralPart
  let threshold := ⌊fractionalPart * ((2 ^ 64 : ℕ) : K)⌋₊
  if seed.toNat < threshold then integralPart + 1
  else integralPart

section Exact

variable {K : Type*} [Field K] [LinearOrder K] [FloorRing K]

/-- The threshold of a seed out of `2 ^ 64`, written without the rounding. -/
theorem threshold_two_pow (x : K) :
    threshold (2 ^ 64) x = ⌊(x - ⌊x⌋) * 2 ^ 64⌋₊ := by
  unfold threshold
  rw [Nat.cast_pow, Nat.cast_ofNat]

/-- The exact count rounds by the seed, out of `2 ^ 64`. -/
theorem exactBimodalInteger_eq (expectation : K) (seed : UInt64) :
    exactBimodalInteger expectation seed =
      roundBy (2 ^ 64) expectation seed.toNat := by
  rfl

/-- The seeds as the numbers below `2 ^ 64`. -/
def seedEquiv : UInt64 ≃ Fin (2 ^ 64) where
  toFun := UInt64.toFin
  invFun := UInt64.ofFin
  left_inv _ := rfl
  right_inv _ := rfl

variable [IsStrictOrderedRing K]

/-- The number of seeds that ask for one more than the integral part. -/
theorem natCard_exactBimodalInteger (expectation : K) :
    Nat.card {seed : UInt64 //
        exactBimodalInteger expectation seed = ⌊expectation⌋ + 1} =
      ⌊(expectation - ⌊expectation⌋) * 2 ^ 64⌋₊ := by
  rw [← threshold_two_pow,
    ← natCard_roundBy_eq_floor_add_one seedEquiv expectation]
  simp only [exactBimodalInteger_eq]
  rfl

/-- A larger expectation never gives fewer clones for one seed. -/
theorem exactBimodalInteger_mono {expectation expectation' : K}
    (le : expectation ≤ expectation') (seed : UInt64) :
    exactBimodalInteger expectation seed ≤
      exactBimodalInteger expectation' seed := by
  rw [exactBimodalInteger_eq, exactBimodalInteger_eq]
  exact roundBy_mono _ le _

end Exact

/-! ## Doubles -/

/-- The double of the largest 64-bit number is `2 ^ 64`. -/
theorem represents_uint64Max :
    Binary64.Represents uint64Max.toFloat ((2 : ℝ) ^ 64) :=
  .of_unpack (2 ^ 52) 12 (by decide) rfl (by norm_num)

variable {value : Float} {x : ℝ}

/-- A truncated number inside of the bounds is the converted one. -/
theorem integralPart_eq {integer lower upper : ℤ}
    (truncated : truncate value = some integer) (le : lower ≤ integer)
    (lt : integer < upper) : integralPart value lower upper = .ok integer := by
  unfold integralPart
  rw [truncated]
  exact if_pos ⟨le, lt⟩

/-- The double below a finite one is its exact floor. -/
theorem truncate_floor (denotes : Denotes value x) :
    truncate (floor value) = some ⌊x⌋ := by
  rw [denotes.floor.truncate, Int.floor_intCast]

/-- A floor that fits in 32 bits is converted exactly. -/
theorem castToInt32_floor (denotes : Denotes value x) (lt : ⌊x⌋ < 2 ^ 31) :
    castToInt32 (floor value) = .ok (Int32.ofInt ⌊x⌋) := by
  have nonneg : 0 ≤ ⌊x⌋ := Int.floor_nonneg.mpr denotes.nonneg
  unfold castToInt32
  rw [integralPart_eq (truncate_floor denotes) (by omega) lt]
  rfl

/-- The integral part comes back from its 32 bits. -/
theorem toInt_ofInt_floor (denotes : Denotes value x) (lt : ⌊x⌋ < 2 ^ 31) :
    (Int32.ofInt ⌊x⌋).toInt = ⌊x⌋ := by
  have nonneg : 0 ≤ ⌊x⌋ := Int.floor_nonneg.mpr denotes.nonneg
  exact Int32.toInt_ofInt_of_le (by omega) (by omega)

/-- The double of the integral part is exact. -/
theorem represents_ofInt_floor (denotes : Denotes value x)
    (lt : ⌊x⌋ < 2 ^ 31) : Binary64.Represents (ofInt ⌊x⌋) ⌊x⌋ := by
  obtain ⟨n, nEq⟩ : ∃ n : ℕ, ⌊x⌋ = n :=
    Int.eq_ofNat_of_zero_le (Int.floor_nonneg.mpr denotes.nonneg)
  rw [nEq] at lt ⊢
  rcases Nat.eq_zero_or_pos n with rfl | positive
  · simpa using @Binary64.Represents.zero (ofInt 0) rfl
  · have represents := represents_ofInt positive (.of_nat positive (by omega))
    rw [(Representable.natCast (by omega)).roundMagnitude_eq] at represents
    exact_mod_cast represents

/-- The threshold that the seed is compared with is the exact one. -/
theorem truncate_scaled (denotes : Denotes value x) (lt : ⌊x⌋ < 2 ^ 31) :
    truncate ((value - ofInt ⌊x⌋) * uint64Max.toFloat) =
        some (threshold (2 ^ 64) x : ℤ) ∧
      threshold (2 ^ 64) x < 2 ^ 64 := by
  have fractional := denotes.sub_floor (represents_ofInt_floor denotes lt)
  have below : Int.fract x * 2 ^ 64 < 2 ^ 64 :=
    mul_lt_of_lt_one_left (by positivity) (Int.fract_lt_one x)
  have inRange : (2 : ℝ) ^ 64 ≤ (2 : ℝ) ^ (1023 : ℤ) := by
    rw [← zpow_natCast]
    exact zpow_le_zpow_right₀ one_le_two (by norm_num)
  have scaled := fractional.mul_two_pow represents_uint64Max
    (below.le.trans inRange)
  rw [threshold_two_pow, Int.self_sub_floor]
  constructor
  · rw [scaled.truncate, Int.natCast_floor_eq_floor scaled.nonneg]
  · rw [Nat.floor_lt scaled.nonneg]
    exact_mod_cast below

/-- The scaled fractional part is converted to the exact threshold. -/
theorem castToUInt64_scaled (denotes : Denotes value x) (lt : ⌊x⌋ < 2 ^ 31) :
    castToUInt64 ((value - ofInt ⌊x⌋) * uint64Max.toFloat) =
      .ok (UInt64.ofNat (threshold (2 ^ 64) x)) := by
  obtain ⟨truncated, thresholdLt⟩ := truncate_scaled denotes lt
  unfold castToUInt64
  rw [integralPart_eq truncated (by omega) (by exact_mod_cast thresholdLt)]
  rfl

/-- Below `2 ^ 31` the count of clones is the exact one, in 32 bits. -/
theorem computeBimodalInteger_eq (denotes : Denotes value x)
    (lt : ⌊x⌋ < 2 ^ 31) (seed : UInt64) :
    computeBimodalInteger value seed =
      .ok (Int32.ofInt (exactBimodalInteger x seed)) := by
  have thresholdLt := (truncate_scaled denotes lt).2
  have seedLt : seed < UInt64.ofNat (threshold (2 ^ 64) x) ↔
      seed.toNat < threshold (2 ^ 64) x := by
    rw [UInt64.lt_iff_toNat_lt, UInt64.toNat_ofNat_of_lt' thresholdLt]
  unfold computeBimodalInteger
  rw [castToInt32_floor denotes lt]
  simp only [bind, Except.bind, toInt_ofInt_floor denotes lt,
    castToUInt64_scaled denotes lt, exactBimodalInteger_eq, roundBy, seedLt]
  split_ifs
  · rw [Int32.ofInt_add]
    rfl
  · rfl

/-- A count below `2 ^ 31` is its 32-bit representation. -/
theorem toInt_exactBimodalInteger (denotes : Denotes value x) {seed : UInt64}
    (lt : exactBimodalInteger x seed < 2 ^ 31) :
    (Int32.ofInt (exactBimodalInteger x seed)).toInt =
      exactBimodalInteger x seed := by
  have nonneg : 0 ≤ ⌊x⌋ := Int.floor_nonneg.mpr denotes.nonneg
  have lower : ⌊x⌋ ≤ exactBimodalInteger x seed := by
    rw [exactBimodalInteger_eq]
    exact floor_le_roundBy _ x _
  exact Int32.toInt_ofInt_of_le (by omega) (by omega)

/-- Where the next integer fits in 32 bits, so does the count. -/
theorem exactBimodalInteger_lt (lt : x < 2 ^ 31 - 1) (seed : UInt64) :
    exactBimodalInteger x seed < 2 ^ 31 := by
  have floorLt : ⌊x⌋ < 2 ^ 31 - 1 := by
    rw [Int.floor_lt]
    exact_mod_cast lt
  have upper := roundBy_le_floor_add_one (2 ^ 64) x seed.toNat
  rw [exactBimodalInteger_eq]
  omega

/-! ## Clones of an event -/

namespace MultiplicityImpl

variable {X : Externals}

section Run

variable (multiplicity : MultiplicityImpl X)

/-- The expectation of an event after the check against the maximum. -/
def cappedMultiplicity (event : X.Event) : Result Float := do
  let expected ← multiplicity.expectedMultiplicity event
  multiplicity.capMultiplicity expected

/-- The seed of the event, from which its clones are counted. -/
def eventSeed (event : X.Event) : UInt64 :=
  X.fingerprint (multiplicity.randomSeed ++
    toString (event.actingFingerprint.getD 0))

/-- The acting fingerprints of the clones, in the order they are made. -/
def cloneFingerprints (input : UInt64) (count : Int32) : List UInt64 :=
  (List.range count.toInt.toNat).map
    (multiplicity.getFingerprintForIndex input)

end Run

variable {multiplicity multiplicity' : MultiplicityImpl X} {event : X.Event}

/-- What passes the check against zero is rounded by the event's seed. -/
theorem computeEventMultiplicity_of_capped
    (capped : multiplicity.cappedMultiplicity event = .ok value)
    (notNegative : ¬value < 0.0) :
    multiplicity.computeEventMultiplicity event =
      computeBimodalInteger value (multiplicity.eventSeed event) := by
  obtain ⟨expected, expectedEq, cappedEq⟩ := bind_eq_ok_iff.mp capped
  unfold computeEventMultiplicity
  rw [expectedEq]
  change (multiplicity.capMultiplicity expected >>= _) = _
  rw [cappedEq]
  exact if_neg notNegative

/-- The computed multiplicity is the exact count for the capped expectation. -/
theorem computeEventMultiplicity_eq
    (capped : multiplicity.cappedMultiplicity event = .ok value)
    (denotes : Denotes value x) (lt : ⌊x⌋ < 2 ^ 31) :
    multiplicity.computeEventMultiplicity event =
      .ok (Int32.ofInt
        (exactBimodalInteger x (multiplicity.eventSeed event))) :=
  (computeEventMultiplicity_of_capped capped denotes.not_lt_zero).trans
    (computeBimodalInteger_eq denotes lt _)

/-- A built multiplicity has the seed of its configuration. -/
theorem randomSeed_of_build {config : Multiplicity}
    (built : build config = .ok multiplicity) :
    config.randomSeed = some multiplicity.randomSeed := by
  unfold build at built
  obtain ⟨extractor, extractorEq, rest⟩ := bind_eq_ok_iff.mp built
  obtain ⟨field, fieldEq, rest⟩ := bind_eq_ok_iff.mp rest
  split at rest
  · contradiction
  · contradiction
  · contradiction
  · rename_i seedEq
    rw [seedEq, ← Except.ok.inj rest]

/-- Fingerprints of clones depend on the random seed and the index only. -/
theorem getFingerprintForIndex_congr
    (sameSeed : multiplicity.randomSeed = multiplicity'.randomSeed) :
    multiplicity.getFingerprintForIndex =
      multiplicity'.getFingerprintForIndex := by
  funext input index
  unfold getFingerprintForIndex
  rw [sameSeed]

/-- The clones of a smaller count are the first ones of a larger count. -/
theorem cloneFingerprints_prefix
    (sameSeed : multiplicity.randomSeed = multiplicity'.randomSeed)
    {count count' : Int32} (le : count.toInt ≤ count'.toInt)
    (input : UInt64) :
    multiplicity.cloneFingerprints input count <+:
      multiplicity'.cloneFingerprints input count' := by
  have taken : List.range count.toInt.toNat =
      (List.range count'.toInt.toNat).take count.toInt.toNat := by
    rw [List.take_range, min_eq_left (Int.toNat_le_toNat le)]
  unfold cloneFingerprints
  rw [getFingerprintForIndex_congr sameSeed, taken, List.map_take]
  exact List.take_prefix _ _

/-- A larger capped expectation keeps the clones of a smaller one and appends
to them. -/
theorem computeEventMultiplicity_prefix
    (sameSeed : multiplicity.randomSeed = multiplicity'.randomSeed)
    {value' : Float} {x' : ℝ}
    (capped : multiplicity.cappedMultiplicity event = .ok value)
    (capped' : multiplicity'.cappedMultiplicity event = .ok value')
    (denotes : Denotes value x) (denotes' : Denotes value' x') (le : x ≤ x')
    (lt : x' < 2 ^ 31 - 1) :
    ∃ count count' : Int32,
      multiplicity.computeEventMultiplicity event = .ok count ∧
      multiplicity'.computeEventMultiplicity event = .ok count' ∧
      ∀ input, multiplicity.cloneFingerprints input count <+:
        multiplicity'.cloneFingerprints input count' := by
  have floorLt {y : ℝ} (yLt : y < 2 ^ 31 - 1) : ⌊y⌋ < 2 ^ 31 := by
    rw [Int.floor_lt]
    push_cast
    linarith
  refine ⟨_, _, computeEventMultiplicity_eq capped denotes
      (floorLt (le.trans_lt lt)),
    computeEventMultiplicity_eq capped' denotes' (floorLt lt),
    fun input => cloneFingerprints_prefix sameSeed ?_ input⟩
  have seedEq : multiplicity.eventSeed event = multiplicity'.eventSeed event :=
    congrArg (fun randomSeed => X.fingerprint (randomSeed ++
      toString (event.actingFingerprint.getD 0))) sameSeed
  rw [toInt_exactBimodalInteger denotes
      (exactBimodalInteger_lt (le.trans_lt lt) _),
    toInt_exactBimodalInteger denotes' (exactBimodalInteger_lt lt _), seedEq]
  exact exactBimodalInteger_mono le _

end MultiplicityImpl

/-! ## The law of the count -/

/-- The integral part of an expectation or one more, one more for exactly the
share of the seeds that the fractional part is, and never less for a larger
expectation. -/
structure CountLaw {K : Type*} [Field K] [LinearOrder K] [FloorRing K]
    (expectation : K) : Prop where
  integralOrNext (seed : UInt64) :
    exactBimodalInteger expectation seed = ⌊expectation⌋ ∨
      exactBimodalInteger expectation seed = ⌊expectation⌋ + 1
  share :
    Nat.card {seed : UInt64 //
        exactBimodalInteger expectation seed = ⌊expectation⌋ + 1} =
      ⌊(expectation - ⌊expectation⌋) * 2 ^ 64⌋₊
  monotone (expectation' : K) (le : expectation ≤ expectation')
      (lt : expectation' < 2 ^ 31 - 1) (seed : UInt64) :
    exactBimodalInteger expectation seed ≤
      exactBimodalInteger expectation' seed

/-- The exact count obeys the law, the count of doubles is the exact count, and
configurations with one random seed clone an event to lists of fingerprints of
which the smaller expectation has a prefix. -/
theorem computeEventMultiplicity_exact {K : Type*} [Field K] [LinearOrder K]
    [IsStrictOrderedRing K] [FloorRing K] :
    (∀ expectation : K, 0 ≤ expectation → expectation < 2 ^ 31 - 1 →
      CountLaw expectation) ∧
    (∀ (value : Float) (x : ℝ), Denotes value x → x < 2 ^ 31 - 1 →
      ∀ seed, ∃ count, computeBimodalInteger value seed = .ok count ∧
        count.toInt = exactBimodalInteger x seed) ∧
    ∀ (X : Externals) (config config' : Multiplicity)
      (multiplicity multiplicity' : MultiplicityImpl X),
      MultiplicityImpl.build config = .ok multiplicity →
      MultiplicityImpl.build config' = .ok multiplicity' →
      config.randomSeed = config'.randomSeed →
      ∀ (event : X.Event) (value value' : Float) (x x' : ℝ),
        multiplicity.cappedMultiplicity event = .ok value →
        multiplicity'.cappedMultiplicity event = .ok value' →
        Denotes value x → Denotes value' x' → x ≤ x' → x' < 2 ^ 31 - 1 →
        ∃ count count' : Int32,
          multiplicity.computeEventMultiplicity event = .ok count ∧
          multiplicity'.computeEventMultiplicity event = .ok count' ∧
          ∀ input, multiplicity.cloneFingerprints input count <+:
            multiplicity'.cloneFingerprints input count' := by
  refine ⟨fun expectation _ _ => ⟨fun seed => ?_, ?_, ?_⟩, ?_, ?_⟩
  · rw [exactBimodalInteger_eq]
    exact roundBy_eq_floor_or _ expectation _
  · exact natCard_exactBimodalInteger expectation
  · intro expectation' le _ seed
    exact exactBimodalInteger_mono le seed
  · intro value x denotes lt seed
    have floorLt : ⌊x⌋ < 2 ^ 31 := by
      rw [Int.floor_lt]
      push_cast
      linarith
    exact ⟨_, computeBimodalInteger_eq denotes floorLt seed,
      toInt_exactBimodalInteger denotes (exactBimodalInteger_lt lt seed)⟩
  · intro X config config' multiplicity multiplicity' built built' sameSeed
      event value value' x x' capped capped' denotes denotes' le lt
    have randomSeeds : multiplicity.randomSeed = multiplicity'.randomSeed := by
      rw [MultiplicityImpl.randomSeed_of_build built,
        MultiplicityImpl.randomSeed_of_build built'] at sameSeed
      exact Option.some.inj sameSeed
    exact MultiplicityImpl.computeEventMultiplicity_prefix randomSeeds capped
      capped' denotes denotes' le lt

/-- A multiplicity whose explicit expectation is also its maximum. -/
def explicitMultiplicity (expectation : Float) : Multiplicity where
  multiplicityRef := .expectedMultiplicity expectation
  personIndexField := some "multiplicity_person_index"
  maxValue := some expectation
  capAtMax := some true
  randomSeed := some "seed"

/-- A built multiplicity with a stated expectation, capped there. -/
def builtMultiplicity (expectation : Float) :
    MultiplicityImpl Externals.constant :=
  ⟨.explicitValue expectation, true, expectation, (), "seed", rfl⟩

@[simp] theorem build_explicitMultiplicity (expectation : Float) :
    MultiplicityImpl.build (explicitMultiplicity expectation) =
      .ok (builtMultiplicity expectation) :=
  rfl

@[simp] theorem randomSeed_explicitMultiplicity (expectation : Float) :
    (explicitMultiplicity expectation).randomSeed = some "seed" :=
  rfl

theorem cappedMultiplicity_builtMultiplicity {expectation : Float} {x : ℝ}
    (represents : Binary64.Represents expectation x)
    (event : Externals.constant.Event) :
    (builtMultiplicity expectation).cappedMultiplicity event =
      .ok expectation := by
  refine if_neg ?_
  change ¬expectation < expectation
  exact represents.not_lt_self

theorem represents_half : Binary64.Represents 0.5 (1 / 2) :=
  .of_unpack (2 ^ 52) (-53) (by decide) rfl (by norm_num)

theorem represents_five_halves : Binary64.Represents 2.5 (5 / 2) :=
  .of_unpack (5 * 2 ^ 50) (-51) (by decide) rfl (by norm_num)

theorem computeEventMultiplicity_exact_halves :
    CountLaw (7 / 5 : ℚ) ∧
    (∀ seed, ∃ count, computeBimodalInteger 0.5 seed = .ok count ∧
      count.toInt = exactBimodalInteger (1 / 2 : ℝ) seed) ∧
    ∀ event, ∃ count count' : Int32,
      (builtMultiplicity 0.5).computeEventMultiplicity event = .ok count ∧
      (builtMultiplicity 2.5).computeEventMultiplicity event = .ok count' ∧
      ∀ input, (builtMultiplicity 0.5).cloneFingerprints input count <+:
        (builtMultiplicity 2.5).cloneFingerprints input count' := by
  obtain ⟨law, doubles, prefixes⟩ := @computeEventMultiplicity_exact ℚ _ _ _ _
  refine ⟨law _ (by norm_num) (by norm_num),
    doubles 0.5 (1 / 2) (.positive represents_half) (by norm_num),
    fun event => ?_⟩
  exact prefixes Externals.constant (explicitMultiplicity 0.5)
    (explicitMultiplicity 2.5) (builtMultiplicity 0.5) (builtMultiplicity 2.5)
    (build_explicitMultiplicity 0.5) (build_explicitMultiplicity 2.5)
    ((randomSeed_explicitMultiplicity 0.5).trans
      (randomSeed_explicitMultiplicity 2.5).symm)
    event 0.5 2.5 (1 / 2) (5 / 2)
    (cappedMultiplicity_builtMultiplicity represents_half event)
    (cappedMultiplicity_builtMultiplicity represents_five_halves event)
    (.positive represents_half) (.positive represents_five_halves)
    (by norm_num) (by norm_num)

end VirtualPeople.Cc
