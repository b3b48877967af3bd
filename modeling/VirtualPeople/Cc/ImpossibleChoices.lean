import VirtualPeople.Binary64.Signs
import VirtualPeople.Cc.Acceptance
import VirtualPeople.FirstLeast

/-!
# Choices without probability

The loop of `Hash` never takes a choice of probability zero, except for the
negative zero: it passes the check against negative probabilities, and dividing
by it gives the least xi.  When no choice of positive probability has a xi below
the largest double, or when a probability is not a number, the loop ends with
its default, the choice of id `0`.
-/

namespace VirtualPeople.Cc

open Binary64

variable (X : Externals)

/-! ## Hashes -/

/-- The logarithm of what is not above one is not above zero. -/
def LogNonpositive : Prop :=
  ∀ x : Float, ¬1.0 < x → ¬0.0 < X.log x

theorem represents_one : Binary64.Represents 1.0 1 :=
  .of_unpack (2 ^ 52) (-52) (by decide) rfl (by norm_num)

/-- No hash is above one. -/
theorem not_one_lt_floatHash (seed : String) : ¬1.0 < floatHash X seed := by
  obtain ⟨n, nEq⟩ : ∃ n, (X.fingerprint seed).toNat = n := ⟨_, rfl⟩
  have nLt : n < 2 ^ 64 := nEq ▸ (X.fingerprint seed).toNat_lt
  have hashEq : floatHash X seed = ofInt n / ofInt ((2 ^ 64 - 1 : ℕ) : ℤ) := by
    rw [← nEq]
    rfl
  obtain ⟨x, le, represents⟩ := exists_represents_ofInt_div
    (by omega : n ≤ 2 ^ 64 - 1) (by norm_num) (by norm_num)
  rw [hashEq, represents_one.lt_iff represents, not_lt]
  exact le

variable {X}

/-- The exponential hash is not negative. -/
theorem LogNonpositive.not_expHash_lt_zero (log : LogNonpositive X)
    (seed : String) : ¬expHash X seed < 0.0 :=
  not_neg_lt_zero (log _ (not_one_lt_floatHash X seed))

namespace DistributedConsistentHashing

/-! ## The loop over the normalized distribution -/

/-- The sum of the probabilities, added from left to right. -/
def probabilitiesSum (distribution : List DistributionChoice) : Float :=
  (distribution.map (·.probability)).foldl (· + ·) 0.0

variable (X) in
/-- The xi of a choice after the normalization. -/
def normalizedXi (distribution : List DistributionChoice) (randomSeed : String)
    (choice : DistributionChoice) : Float :=
  computeXi X randomSeed choice.choiceId
    (choice.probability / probabilitiesSum distribution)

variable (X) in
/-- The choice and the xi that the loop ends with. -/
def search (distribution : List DistributionChoice) (randomSeed : String)
    (choices : List DistributionChoice) : DistributionChoice × Float :=
  FirstLeast.select (normalizedXi X distribution randomSeed)
    (⟨0, 0.0⟩, doubleMax) choices

variable {distribution : List DistributionChoice}
  {hashing : DistributedConsistentHashing} {randomSeed : String}

/-- Probabilities that are built can be normalized. -/
theorem normalizable_of_build (built : build distribution = .ok hashing) :
    Normalizable (distribution.map (·.probability)) :=
  (succeeds_build_iff distribution).mp ⟨hashing, built⟩

/-- The built probabilities are divided by their sum. -/
theorem distribution_of_build (built : build distribution = .ok hashing) :
    hashing.distribution = distribution.map fun choice =>
      { choice with
        probability := choice.probability / probabilitiesSum distribution } := by
  unfold build at built
  split_ifs at built
  obtain ⟨sum, sumEq, rest⟩ := bind_eq_ok_iff.mp built
  have sumIs : probabilitiesSum distribution = sum :=
    ((sumProbabilities_foldlM distribution 0.0 sum).mp sumEq).2
  split_ifs at rest
  rw [← Except.ok.inj rest, sumIs]

/-- The hash is the choice that the search ends with. -/
theorem hash_of_build (built : build distribution = .ok hashing)
    (randomSeed : String) :
    hashing.hash X randomSeed =
      (search X distribution randomSeed distribution).1.choiceId := by
  unfold hash search FirstLeast.select
  rw [distribution_of_build built, List.foldl_map]
  refine congrArg Prod.fst (@List.foldl_hom _ _ _
    (fun kept : DistributionChoice × Float => (kept.1.choiceId, kept.2)) _ _ _
    (⟨0, 0.0⟩, doubleMax) fun kept choice => ?_)
  unfold normalizedXi
  simp only
  split_ifs
  · rfl
  · rfl

variable (X) in
/-- A negative zero with a positive hash, which the loop takes before anything
else. -/
def OutranksAll (randomSeed : String) (choice : DistributionChoice) : Prop :=
  IsNegativeZero choice.probability ∧
    0.0 < expHash X (getFullSeed randomSeed choice.choiceId)

/-! ## The sum of the probabilities -/

/-- The probabilities that `Build` has summed are not below zero. -/
theorem not_lt_zero_of_mem
    (normalizable : Normalizable (distribution.map (·.probability)))
    {choice : DistributionChoice} (member : choice ∈ distribution) :
    ¬choice.probability < 0.0 :=
  normalizable.2.1 _ (List.mem_map_of_mem member)

/-- A sum with an undefined probability is undefined. -/
theorem probabilitiesSum_notANumber {choice : DistributionChoice}
    (member : choice ∈ distribution) (nan : choice.probability.isNaN) :
    (probabilitiesSum distribution).toModel.unpack = .notANumber :=
  foldl_add_notANumber (Or.inr ⟨_, List.mem_map_of_mem member, nan⟩)

/-- A sum of numbers that passes the check is finite and positive. -/
theorem probabilitiesSum_finite
    (normalizable : Normalizable (distribution.map (·.probability)))
    (numbers : ∀ choice ∈ distribution, ¬choice.probability.isNaN) :
    ∃ (mantissa : ℕ) (exponent : ℤ) (positive : 0 < mantissa),
      (probabilitiesSum distribution).toModel.unpack =
        .finite .positive mantissa exponent positive := by
  obtain ⟨-, notNegative, notBelow, notAbove⟩ := normalizable
  have hasSign : HasSign .positive
      (probabilitiesSum distribution).toModel.unpack := by
    refine hasSign_foldl_add ?_ notNegative ?_
    · rw [unpack_zero]
      rfl
    · rwa [List.forall_mem_map]
  change ¬probabilitiesSum distribution < _ at notBelow
  change ¬_ < probabilitiesSum distribution at notAbove
  rw [lt_iff_compare] at notBelow notAbove
  cases unpacked : (probabilitiesSum distribution).toModel.unpack with
  | notANumber => simp [unpacked, HasSign] at hasSign
  | zero sign =>
    rw [unpacked] at notBelow
    exact absurd rfl notBelow
  | infinity sign =>
    rw [unpacked] at hasSign notAbove
    rw [show sign = .positive from hasSign] at notAbove
    exact absurd rfl notAbove
  | finite sign mantissa exponent positive =>
    rw [unpacked] at hasSign
    rw [show sign = .positive from hasSign]
    exact ⟨mantissa, exponent, positive, rfl⟩

/-! ## The xi of a choice -/

variable {choice : DistributionChoice}

/-- When the sum is not a number, no xi is below anything. -/
theorem not_normalizedXi_lt_of_nan
    (nan : (probabilitiesSum distribution).toModel.unpack = .notANumber)
    (choice : DistributionChoice) (bound : Float) :
    ¬normalizedXi X distribution randomSeed choice < bound :=
  not_lt_of_top (Or.inl (div_notANumber (Or.inr
    (div_notANumber (Or.inr nan)))))

section Numbers

variable
  (normalizable : Normalizable (distribution.map (·.probability)))
  (numbers : ∀ choice ∈ distribution, ¬choice.probability.isNaN)
include normalizable numbers

/-- A choice of probability zero has an infinite xi or none. -/
theorem normalizedXi_of_zero (log : LogNonpositive X)
    {sign : Float.Model.UnpackedFloat.Sign}
    (zero : choice.probability.toModel.unpack = .zero sign) :
    ¬0.0 < expHash X (getFullSeed randomSeed choice.choiceId) ∧
        (normalizedXi X distribution randomSeed choice).toModel.unpack =
          .notANumber ∨
      0.0 < expHash X (getFullSeed randomSeed choice.choiceId) ∧
        (normalizedXi X distribution randomSeed choice).toModel.unpack =
          .infinity sign := by
  obtain ⟨mantissa, exponent, positive, finite⟩ :=
    probabilitiesSum_finite normalizable numbers
  exact div_zero_cases (log.not_expHash_lt_zero _)
    (zero_div_finite zero finite)

/-- A choice that outranks all others has the least value there is. -/
theorem normalizedXi_of_outranksAll (log : LogNonpositive X)
    (outranks : OutranksAll X randomSeed choice) :
    (normalizedXi X distribution randomSeed choice).toModel.unpack =
      .infinity .negative := by
  rcases normalizedXi_of_zero normalizable numbers log outranks.1 with
    ⟨notPos, -⟩ | ⟨-, infinite⟩
  · exact absurd outranks.2 notPos
  · exact infinite

/-- A choice of positive probability is not at negative infinity. -/
theorem normalizedXi_ne_negative_infinity (log : LogNonpositive X)
    (above : 0.0 < choice.probability) :
    (normalizedXi X distribution randomSeed choice).toModel.unpack ≠
      .infinity .negative := by
  obtain ⟨mantissa, exponent, positive, finite⟩ :=
    probabilitiesSum_finite normalizable numbers
  refine div_ne_negative_infinity (log.not_expHash_lt_zero _)
    (div_hasSign (hasSign_of_zero_lt above) ?_)
  rw [finite]
  rfl

end Numbers

/-- Once a choice is at negative infinity, the search ends there. -/
theorem search_negative_infinity {choices : List DistributionChoice}
    (member : choice ∈ choices)
    (bottom : (normalizedXi X distribution randomSeed choice).toModel.unpack =
      .infinity .negative) :
    (search X distribution randomSeed choices).2.toModel.unpack =
      .infinity .negative := by
  obtain ⟨before, after, rfl⟩ := List.append_of_mem member
  unfold search
  rw [FirstLeast.select_append]
  have number : (FirstLeast.select (normalizedXi X distribution randomSeed)
      (⟨0, 0.0⟩, doubleMax) before).2.toModel.unpack ≠ .notANumber := by
    rcases FirstLeast.select_eq_start_or (normalizedXi X distribution randomSeed)
      (⟨0, 0.0⟩, doubleMax) before with
      ⟨selected, -⟩ | ⟨-, chosen, -, selected, bound, below⟩
    · rw [selected]
      nofun
    · rw [selected]
      exact number_of_lt below
  generalize FirstLeast.select (normalizedXi X distribution randomSeed)
    (⟨0, 0.0⟩, doubleMax) before = kept at number ⊢
  by_cases atBottom : kept.2.toModel.unpack = .infinity .negative
  · rwa [FirstLeast.select_of_bottom fun _ => not_lt_negative_infinity atBottom]
  · have ends := FirstLeast.select_cons_of_bottom
      (negative_infinity_lt bottom number atBottom)
      (fun _ => not_lt_negative_infinity bottom) after
    rwa [ends]

/-! ## Possible choices -/

/-- The default of the loop is the id of a choice of positive probability. -/
def DefaultPossible (distribution : List DistributionChoice) : Prop :=
  ∃ choice ∈ distribution, choice.choiceId = 0 ∧ 0.0 < choice.probability

variable (X) in
/-- Either a probability is not a number, and the default is possible; or all of
them are numbers, none of them outranks the others as a negative zero, and the
default or a choice with a xi that the loop can take is possible. -/
def HitsPossible (distribution : List DistributionChoice)
    (randomSeed : String) : Prop :=
  (∃ choice ∈ distribution, choice.probability.isNaN) ∧
      DefaultPossible distribution ∨
    (∀ choice ∈ distribution, ¬choice.probability.isNaN) ∧
      (∀ choice ∈ distribution, ¬OutranksAll X randomSeed choice) ∧
      (DefaultPossible distribution ∨
        ∃ choice ∈ distribution, 0.0 < choice.probability ∧
          normalizedXi X distribution randomSeed choice < doubleMax)

section Taken

variable
  (normalizable : Normalizable (distribution.map (·.probability)))
  (numbers : ∀ choice ∈ distribution, ¬choice.probability.isNaN)
  (log : LogNonpositive X)
include normalizable numbers log

/-- A xi that is below something belongs to a choice of positive probability or
to one that outranks all. -/
theorem possible_of_normalizedXi_lt (member : choice ∈ distribution)
    {bound : Float}
    (below : normalizedXi X distribution randomSeed choice < bound) :
    0.0 < choice.probability ∨ OutranksAll X randomSeed choice := by
  rcases zero_lt_or_zero (numbers choice member)
      (not_lt_zero_of_mem normalizable member) with above | ⟨sign, zero⟩
  · exact Or.inl above
  · rcases normalizedXi_of_zero normalizable numbers log zero with
      ⟨-, nan⟩ | ⟨hashPos, infinite⟩
    · exact absurd below (not_lt_of_top (Or.inl nan))
    · cases sign with
      | positive => exact absurd below (not_lt_of_top (Or.inr infinite))
      | negative => exact Or.inr ⟨zero, hashPos⟩

/-- A choice that outranks all keeps those of positive probability from being
taken. -/
theorem not_possible_of_outranksAll (member : choice ∈ distribution)
    (outranks : OutranksAll X randomSeed choice) :
    ∃ chosen ∈ distribution,
      (search X distribution randomSeed distribution).1 = chosen ∧
        ¬0.0 < chosen.probability := by
  have bottom := normalizedXi_of_outranksAll normalizable numbers log outranks
  have ends := search_negative_infinity member bottom
  rcases FirstLeast.select_eq_start_or (normalizedXi X distribution randomSeed)
      (⟨0, 0.0⟩, doubleMax) distribution with
    ⟨selected, -⟩ | ⟨-, chosen, chosenMem, selected, -⟩
  · rw [search, selected] at ends
    contradiction
  · rw [search, selected] at ends
    refine ⟨chosen, chosenMem, by rw [search, selected], fun above => ?_⟩
    exact normalizedXi_ne_negative_infinity normalizable numbers log above ends

end Taken

/-- Choices of a list of probabilities are told apart by their ids. -/
theorem eq_of_choiceId_eq {probabilities : List Float}
    {choice choice' : DistributionChoice}
    (member : choice ∈ enumerateChoices probabilities)
    (member' : choice' ∈ enumerateChoices probabilities)
    (same : choice.choiceId = choice'.choiceId) : choice = choice' := by
  unfold enumerateChoices at member member'
  obtain ⟨index, inside, rfl⟩ := List.mem_mapIdx.mp member
  obtain ⟨index', inside', rfl⟩ := List.mem_mapIdx.mp member'
  have sameIndex : index = index' := Int.ofNat.inj same
  subst sameIndex
  rfl

/-- With a probability that is not a number, the search ends with the default. -/
theorem search_of_nan (member : choice ∈ distribution)
    (nan : choice.probability.isNaN) (choices : List DistributionChoice) :
    search X distribution randomSeed choices = (⟨0, 0.0⟩, doubleMax) :=
  FirstLeast.select_of_not_lt fun choice _ bound =>
    not_normalizedXi_lt_of_nan (probabilitiesSum_notANumber member nan) choice
      bound

/-- Among numbers, the search ends with a choice of positive probability unless
a negative zero or the default comes in its way. -/
theorem search_possible_iff
    (normalizable : Normalizable (distribution.map (·.probability)))
    (numbers : ∀ choice ∈ distribution, ¬choice.probability.isNaN)
    (log : LogNonpositive X)
    (distinct : ∀ choice ∈ distribution, ∀ choice' ∈ distribution,
      choice.choiceId = choice'.choiceId → choice = choice')
    (randomSeed : String) :
    (∃ choice ∈ distribution,
        choice.choiceId =
            (search X distribution randomSeed distribution).1.choiceId ∧
          0.0 < choice.probability) ↔
      (∀ choice ∈ distribution, ¬OutranksAll X randomSeed choice) ∧
        (DefaultPossible distribution ∨
          ∃ choice ∈ distribution, 0.0 < choice.probability ∧
            normalizedXi X distribution randomSeed choice < doubleMax) := by
  constructor
  · rintro ⟨possible, member, idEq, above⟩
    have noneOutranks :
        ∀ choice ∈ distribution, ¬OutranksAll X randomSeed choice := by
      intro choice choiceMem outranks
      obtain ⟨chosen, chosenMem, chosenEq, notAbove⟩ :=
        not_possible_of_outranksAll normalizable numbers log choiceMem outranks
      rw [chosenEq] at idEq
      rw [distinct possible member chosen chosenMem idEq] at above
      exact notAbove above
    refine ⟨noneOutranks, ?_⟩
    rcases FirstLeast.select_eq_start_or
        (normalizedXi X distribution randomSeed) (⟨0, 0.0⟩, doubleMax)
        distribution with ⟨selected, -⟩ | ⟨⟨first, firstMem, below⟩, -⟩
    · rw [search, selected] at idEq
      exact Or.inl ⟨possible, member, idEq, above⟩
    · rcases possible_of_normalizedXi_lt normalizable numbers log firstMem below
        with firstAbove | outranks
      · exact Or.inr ⟨first, firstMem, firstAbove, below⟩
      · exact absurd outranks (noneOutranks first firstMem)
  · rintro ⟨noneOutranks, reachable⟩
    rcases FirstLeast.select_eq_start_or
        (normalizedXi X distribution randomSeed) (⟨0, 0.0⟩, doubleMax)
        distribution with
      ⟨selected, notBelow⟩ | ⟨-, chosen, chosenMem, selected, bound, below⟩
    · rw [search, selected]
      rcases reachable with possible | ⟨choice, choiceMem, -, below⟩
      · exact possible
      · exact absurd below (notBelow choice choiceMem)
    · rw [search, selected]
      rcases possible_of_normalizedXi_lt normalizable numbers log chosenMem below
        with above | outranks
      · exact ⟨chosen, chosenMem, rfl, above⟩
      · exact absurd outranks (noneOutranks chosen chosenMem)

/-- `Hash` takes a choice of positive probability exactly under this
condition. -/
theorem hash_possible_iff (log : LogNonpositive X) {probabilities : List Float}
    {hashing : DistributedConsistentHashing}
    (built : build (enumerateChoices probabilities) = .ok hashing)
    (randomSeed : String) :
    (∃ choice ∈ enumerateChoices probabilities,
        choice.choiceId = hashing.hash X randomSeed ∧
          0.0 < choice.probability) ↔
      HitsPossible X (enumerateChoices probabilities) randomSeed := by
  have normalizable := normalizable_of_build built
  rw [hash_of_build built]
  unfold HitsPossible
  by_cases numbers :
    ∀ choice ∈ enumerateChoices probabilities, ¬choice.probability.isNaN
  · rw [search_possible_iff normalizable numbers log
      (fun _ member _ member' => eq_of_choiceId_eq member member') randomSeed]
    constructor
    · intro holds
      exact Or.inr ⟨numbers, holds⟩
    · rintro (⟨⟨choice, member, nan⟩, -⟩ | ⟨-, holds⟩)
      · exact absurd nan (numbers choice member)
      · exact holds
  · push Not at numbers
    obtain ⟨choice, member, nan⟩ := numbers
    rw [search_of_nan member nan]
    constructor
    · intro possible
      exact Or.inl ⟨⟨choice, member, nan⟩, possible⟩
    · rintro (⟨-, possible⟩ | ⟨numbers, -⟩)
      · exact possible
      · exact absurd nan (numbers choice member)

/-! ## Even hashes -/

/-- The logarithm, correctly rounded at zero, at one half and at one. -/
def evenLog (x : Float) : Float :=
  if x == 0.5 then -0.6931471805599453
  else if x == 0.0 then -1.0 / 0.0
  else -0.0

/-- Externals with one fingerprint for every seed. -/
def evenExternals (fingerprint : UInt64) : Externals :=
  { Externals.constant with
    fingerprint64 := fun _ => fingerprint
    log := evenLog }

theorem logNonpositive_evenExternals (fingerprint : UInt64) :
    LogNonpositive (evenExternals fingerprint) := by
  intro x _
  change ¬0.0 < evenLog x
  unfold evenLog
  split_ifs <;> decide

/-- A choice between a quarter and three quarters has a positive probability. -/
theorem hash_possible_iff_quarters :
    ∃ hashing, build (enumerateChoices [0.25, 0.75]) = .ok hashing ∧
      ∃ choice ∈ enumerateChoices [0.25, 0.75],
        choice.choiceId = hashing.hash (evenExternals (2 ^ 63)) "seed" ∧
          0.0 < choice.probability := by
  refine ⟨_, rfl, (hash_possible_iff (logNonpositive_evenExternals (2 ^ 63))
    rfl "seed").mpr (Or.inr ⟨by decide, ?_, Or.inl ?_⟩)⟩
  · rintro choice member ⟨negativeZero, -⟩
    rcases List.mem_pair.mp member with rfl | rfl
    · contradiction
    · contradiction
  · exact ⟨⟨0, 0.25⟩, List.mem_cons_self, rfl, by decide⟩

/-- The negative zero is taken under every hash above zero; without it, the
default is taken where the only possible choice hashes to infinity, and where a
probability is not a number. -/
theorem hash_impossible :
    (∃ hashing, build (enumerateChoices [1.0, -0.0]) = .ok hashing ∧
      ¬∃ choice ∈ enumerateChoices [1.0, -0.0],
        choice.choiceId = hashing.hash (evenExternals (2 ^ 63)) "seed" ∧
          0.0 < choice.probability) ∧
    (∃ hashing, build (enumerateChoices [0.0, 1.0]) = .ok hashing ∧
      ¬∃ choice ∈ enumerateChoices [0.0, 1.0],
        choice.choiceId = hashing.hash (evenExternals 0) "seed" ∧
          0.0 < choice.probability) ∧
    ∃ hashing, build (enumerateChoices [0.0, 0.0 / 0.0]) = .ok hashing ∧
      ¬∃ choice ∈ enumerateChoices [0.0, 0.0 / 0.0],
        choice.choiceId = hashing.hash (evenExternals (2 ^ 63)) "seed" ∧
          0.0 < choice.probability := by
  refine ⟨⟨_, rfl, ?_⟩, ⟨_, rfl, ?_⟩, ⟨_, rfl, ?_⟩⟩
  · decide +kernel
  · decide +kernel
  · decide +kernel

end DistributedConsistentHashing

end VirtualPeople.Cc
