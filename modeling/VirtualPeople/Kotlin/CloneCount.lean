import VirtualPeople.Cc.CloneCount
import VirtualPeople.Kotlin.Multiplicity

/-!
# The range of the number of clones

Neither language checks that the expectation fits in 32 bits.  The count is the
one that is documented exactly for numbers below `2 ^ 31` whose rounding does
not step over the largest integer.  Beyond them C++ converts out of range and
Kotlin saturates, and there the integer above the largest is the least one.
-/

namespace VirtualPeople.Kotlin

open Binary64
open Cc (exactBimodalInteger exactBimodalInteger_eq uint64Max)
open RandomizedRounding

/-- No conversion to an integer and no addition of the rounding leaves its
type. -/
def StaysInRange (value : Float) (seed : UInt64) : Prop :=
  ∃ integralPart threshold : ℤ,
    truncate (floor value) = some integralPart ∧
    -2 ^ 31 ≤ integralPart ∧ integralPart < 2 ^ 31 ∧
    truncate ((value - ofInt integralPart) * uint64Max.toFloat) =
      some threshold ∧
    0 ≤ threshold ∧ threshold < 2 ^ 64 ∧
    (seed.toNat < threshold → integralPart + 1 < 2 ^ 31)

/-- The count is the integral part or one more, never negative, and not zero
for an expectation of at least one. -/
def IsCountOf (count : Int32) (m : ℝ) : Prop :=
  (count.toInt = ⌊m⌋ ∨ count.toInt = ⌊m⌋ + 1) ∧
    0 ≤ count.toInt ∧ (1 ≤ m → count.toInt ≠ 0)

/-- The expectation is a number below `2 ^ 31`, and from `2 ^ 31 - 1` on the
seed does not ask for the integer above. -/
def FitsInt (value : Float) (seed : UInt64) : Prop :=
  ∃ m : ℝ, Denotes value m ∧ ⌊m⌋ < 2 ^ 31 ∧
    (⌊m⌋ = 2 ^ 31 - 1 → ⌊(m - ⌊m⌋) * ((2 ^ 64 : ℕ) : ℝ)⌋₊ ≤ seed.toNat)

variable {value : Float} {seed : UInt64} {m : ℝ}

theorem staysInRange_iff (notNegative : ¬value < 0.0) :
    StaysInRange value seed ↔ FitsInt value seed := by
  constructor
  · rintro ⟨integralPart, bound, integralEq, -, lt, boundEq, -, -, addition⟩
    have finite : truncate value ≠ none := fun none => by
      rw [truncate_floor_eq_none none] at integralEq
      contradiction
    obtain ⟨m, denotes⟩ := exists_denotes finite notNegative
    have integralPartEq : ⌊m⌋ = integralPart :=
      Option.some.inj ((Cc.truncate_floor denotes).symm.trans integralEq)
    subst integralPartEq
    have boundValue : bound = threshold (2 ^ 64) m :=
      Option.some.inj (boundEq.symm.trans (Cc.truncate_scaled denotes lt).1)
    refine ⟨m, denotes, lt, fun last => ?_⟩
    by_contra above
    have := addition (by rw [boundValue]; exact_mod_cast not_le.mp above)
    omega
  · rintro ⟨m, denotes, lt, atLast⟩
    have nonneg : 0 ≤ ⌊m⌋ := Int.floor_nonneg.mpr denotes.nonneg
    obtain ⟨thresholdEq, thresholdLt⟩ := Cc.truncate_scaled denotes lt
    refine ⟨⌊m⌋, threshold (2 ^ 64) m, Cc.truncate_floor denotes, by omega, lt,
      thresholdEq, by omega, by exact_mod_cast thresholdLt, fun above => ?_⟩
    by_contra last
    have : threshold (2 ^ 64) m ≤ seed.toNat := atLast (by omega)
    omega

/-- In range, the rounding returns the exact count. -/
theorem isCountOf_exactBimodalInteger (denotes : Denotes value m)
    (lt : ⌊m⌋ < 2 ^ 31)
    (atLast : ⌊m⌋ = 2 ^ 31 - 1 → threshold (2 ^ 64) m ≤ seed.toNat) :
    IsCountOf (Int32.ofInt (exactBimodalInteger m seed)) m := by
  have nonneg : 0 ≤ ⌊m⌋ := Int.floor_nonneg.mpr denotes.nonneg
  have countLt : exactBimodalInteger m seed < 2 ^ 31 := by
    rw [exactBimodalInteger_eq]
    unfold roundBy
    split_ifs with above
    · by_contra last
      exact absurd (atLast (by omega)) (not_le.mpr above)
    · exact lt
  have lower := floor_le_roundBy (2 ^ 64) m seed.toNat
  rw [IsCountOf, Cc.toInt_exactBimodalInteger denotes countLt,
    exactBimodalInteger_eq]
  refine ⟨roundBy_eq_floor_or _ _ _, by omega, fun oneLe => ?_⟩
  have : 1 ≤ ⌊m⌋ := Int.le_floor.mpr (by exact_mod_cast oneLe)
  omega

/-! ## Runs -/

/-- A run stays in range and ends with a count of its expectation. -/
def CountsInRange (run : Result Int32) (value : Float) (seed : UInt64) :
    Prop :=
  StaysInRange value seed ∧
    ∃ m count, Denotes value m ∧ run = .ok count ∧ IsCountOf count m

variable {X : Externals} {event : X.Event}

namespace MultiplicityImpl

section Run

variable (multiplicity : MultiplicityImpl X)

/-- The expectation of an event after the check against the maximum. -/
def cappedMultiplicity (event : X.Event) : Result Float := do
  let expected ← multiplicity.expectedMultiplicity event
  multiplicity.capMultiplicity expected

/-- The seed of the event, from which its clones are counted. -/
def eventSeed (event : X.Event) : UInt64 :=
  X.fingerprint (multiplicity.randomSeed ++
    toString (event.actingFingerprint.getD 0).toInt64.toUInt64)

end Run

variable {multiplicity : MultiplicityImpl X}

theorem computeEventMultiplicity_of_capped
    (capped : multiplicity.cappedMultiplicity event = .ok value)
    (notNegative : ¬value < 0.0) :
    multiplicity.computeEventMultiplicity event =
      .ok (computeBimodalInteger value (multiplicity.eventSeed event)) := by
  obtain ⟨expected, expectedEq, cappedEq⟩ := bind_eq_ok_iff.mp capped
  unfold computeEventMultiplicity
  rw [expectedEq]
  change (multiplicity.capMultiplicity expected >>= _) = _
  rw [cappedEq]
  exact if_neg notNegative

end MultiplicityImpl

/-- Below `2 ^ 31` Kotlin rounds as C++ does. -/
theorem computeBimodalInteger_eq (denotes : Denotes value m)
    (lt : ⌊m⌋ < 2 ^ 31) (seed : UInt64) :
    computeBimodalInteger value seed =
      Int32.ofInt (exactBimodalInteger m seed) := by
  have agree := computeBimodalInteger_agree value seed
  rw [Cc.computeBimodalInteger_eq denotes lt] at agree
  cases agree with
  | ok same => exact same.symm

/-- A run that returns the rounding of its expectation, when there is one. -/
theorem countsInRange_iff {run : Result Int32} (notNegative : ¬value < 0.0)
    (returns : ∀ m, Denotes value m → ⌊m⌋ < 2 ^ 31 →
      run = .ok (Int32.ofInt (exactBimodalInteger m seed))) :
    CountsInRange run value seed ↔ FitsInt value seed := by
  constructor
  · intro inRange
    exact (staysInRange_iff notNegative).mp inRange.1
  · intro fits
    have stays := (staysInRange_iff notNegative).mpr fits
    obtain ⟨m, denotes, lt, atLast⟩ := fits
    exact ⟨stays, m, _, denotes, returns m denotes lt,
      isCountOf_exactBimodalInteger denotes lt atLast⟩

/-- In either language a run on a capped expectation that passes the check
against zero stays in range, with one of the two documented counts, exactly when
the expectation fits. -/
theorem computeEventMultiplicity_inRange_iff :
    (∀ (multiplicity : Cc.MultiplicityImpl X) (event : X.Event) (value : Float),
      multiplicity.cappedMultiplicity event = .ok value → ¬value < 0.0 →
      (CountsInRange (multiplicity.computeEventMultiplicity event) value
          (multiplicity.eventSeed event) ↔
        FitsInt value (multiplicity.eventSeed event))) ∧
    ∀ (multiplicity : MultiplicityImpl X) (event : X.Event) (value : Float),
      multiplicity.cappedMultiplicity event = .ok value → ¬value < 0.0 →
      (CountsInRange (multiplicity.computeEventMultiplicity event) value
          (multiplicity.eventSeed event) ↔
        FitsInt value (multiplicity.eventSeed event)) := by
  constructor
  · intro multiplicity event value capped notNegative
    refine countsInRange_iff notNegative fun m denotes lt => ?_
    exact Cc.MultiplicityImpl.computeEventMultiplicity_eq capped denotes lt
  · intro multiplicity event value capped notNegative
    refine countsInRange_iff notNegative fun m denotes lt => ?_
    rw [MultiplicityImpl.computeEventMultiplicity_of_capped capped notNegative,
      computeBimodalInteger_eq denotes lt]

/-! ## Two and a half clones, and three billion -/

/-- A built multiplicity with a stated expectation, capped there. -/
def builtMultiplicity (expectation : Float) :
    MultiplicityImpl Externals.constant :=
  ⟨.double expectation, true, expectation, (), "seed"⟩

@[simp] theorem build_explicitMultiplicity (expectation : Float) :
    MultiplicityImpl.build (Cc.explicitMultiplicity expectation) =
      .ok (builtMultiplicity expectation) :=
  rfl

theorem cappedMultiplicity_builtMultiplicity {expectation : Float} {x : ℝ}
    (represents : Binary64.Represents expectation x)
    (event : Externals.constant.Event) :
    (builtMultiplicity expectation).cappedMultiplicity event =
      .ok expectation := by
  refine if_neg ?_
  change ¬expectation < expectation
  exact represents.not_lt_self

theorem computeEventMultiplicity_inRange_five_halves :
    ∀ event,
      CountsInRange ((Cc.builtMultiplicity 2.5).computeEventMultiplicity event)
          2.5 ((Cc.builtMultiplicity 2.5).eventSeed event) ∧
        CountsInRange ((builtMultiplicity 2.5).computeEventMultiplicity event)
          2.5 ((builtMultiplicity 2.5).eventSeed event) := by
  have represents := Cc.represents_five_halves
  have denotes := Denotes.positive represents
  have floorEq : ⌊(5 / 2 : ℝ)⌋ = 2 := by norm_num
  have fits (seed : UInt64) : FitsInt 2.5 seed :=
    ⟨5 / 2, denotes, by omega, by omega⟩
  intro event
  exact ⟨(computeEventMultiplicity_inRange_iff.1 _ event 2.5
      (Cc.cappedMultiplicity_builtMultiplicity represents event)
      denotes.not_lt_zero).mpr (fits _),
    (computeEventMultiplicity_inRange_iff.2 _ event 2.5
      (cappedMultiplicity_builtMultiplicity represents event)
      denotes.not_lt_zero).mpr (fits _)⟩

theorem not_countsInRange_three_billion (run : Result Int32) (seed : UInt64) :
    ¬CountsInRange run 3000000000.0 seed := by
  rintro ⟨⟨integralPart, bound, integralEq, -, lt, -⟩, -⟩
  have : integralPart = 3000000000 := Option.some.inj (integralEq.symm.trans rfl)
  omega

/-- Both languages accept an expectation of three billion; the conversion of
C++ is out of range, and Kotlin returns the least integer. -/
theorem computeEventMultiplicity_not_inRange :
    ∃ (config : Multiplicity) (multiplicity : Cc.MultiplicityImpl .constant)
      (multiplicity' : MultiplicityImpl .constant) (value : Float),
      Cc.MultiplicityImpl.build config = .ok multiplicity ∧
      MultiplicityImpl.build config = .ok multiplicity' ∧
      ¬value < 0.0 ∧
      ∀ event, multiplicity.cappedMultiplicity event = .ok value ∧
        multiplicity'.cappedMultiplicity event = .ok value ∧
        multiplicity.computeEventMultiplicity event = .error .conversion ∧
        multiplicity'.computeEventMultiplicity event = .ok (-2147483648) ∧
        ¬CountsInRange (multiplicity.computeEventMultiplicity event) value
          (multiplicity.eventSeed event) ∧
        ¬CountsInRange (multiplicity'.computeEventMultiplicity event) value
          (multiplicity'.eventSeed event) := by
  have represents : Binary64.Represents 3000000000.0 3000000000 :=
    .of_unpack (3000000000 * 2 ^ 21) (-21) (by decide) rfl (by norm_num)
  have notNegative : ¬(3000000000.0 : Float) < 0.0 :=
    (Denotes.positive represents).not_lt_zero
  refine ⟨Cc.explicitMultiplicity 3000000000.0,
    Cc.builtMultiplicity 3000000000.0, builtMultiplicity 3000000000.0,
    3000000000.0, Cc.build_explicitMultiplicity _, build_explicitMultiplicity _,
    notNegative, fun event => ?_⟩
  have capped := Cc.cappedMultiplicity_builtMultiplicity represents event
  have capped' := cappedMultiplicity_builtMultiplicity represents event
  refine ⟨capped, capped', ?_, ?_, not_countsInRange_three_billion _ _,
    not_countsInRange_three_billion _ _⟩
  · rw [Cc.MultiplicityImpl.computeEventMultiplicity_of_capped capped
      notNegative]
    rfl
  · rw [MultiplicityImpl.computeEventMultiplicity_of_capped capped'
      notNegative]
    exact congrArg Except.ok (rfl : computeBimodalInteger 3000000000.0 0 =
      -2147483648)

end VirtualPeople.Kotlin
