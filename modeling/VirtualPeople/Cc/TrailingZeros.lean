import VirtualPeople.Cc.ImpossibleChoices

/-!
# Trailing zeros of a distribution

Choices of probability zero at the end of a distribution change neither whether
its hashing is built nor what it returns, unless one of them is a negative zero
that outranks all other choices.
-/

namespace VirtualPeople.Cc

open Binary64

variable {X : Externals}

namespace DistributedConsistentHashing

/-- Probabilities that compare equal to zero. -/
def AreZeros (probabilities : List Float) : Prop :=
  ∀ probability ∈ probabilities,
    ∃ sign, probability.toModel.unpack = .zero sign

/-- The choices of probabilities that follow others. -/
def laterChoices (start : ℕ) (probabilities : List Float) :
    List DistributionChoice :=
  probabilities.mapIdx fun index probability => ⟨(start + index : ℕ), probability⟩

variable {kept leftOut : List Float} {randomSeed : String}

/-- The choices of a longer list are those of the first part and later ones. -/
theorem enumerateChoices_append (kept leftOut : List Float) :
    enumerateChoices (kept ++ leftOut) =
      enumerateChoices kept ++ laterChoices kept.length leftOut := by
  unfold enumerateChoices laterChoices
  rw [List.mapIdx_append]
  simp only [Nat.add_comm]

theorem normalizable_enumerateChoices {probabilities : List Float}
    (normalizable : Normalizable probabilities) :
    Normalizable ((enumerateChoices probabilities).map (·.probability)) := by
  rwa [map_probability_enumerateChoices]

theorem not_lt_zero_of_zero {float : Float}
    {sign : Float.Model.UnpackedFloat.Sign}
    (zero : float.toModel.unpack = .zero sign) : ¬float < 0.0 := by
  rw [lt_iff_compare, zero, unpack_zero]
  simp [Float.Model.UnpackedFloat.compare]

theorem lt_of_zero {float : Float} {sign : Float.Model.UnpackedFloat.Sign}
    (zero : float.toModel.unpack = .zero sign) :
    float < 1.0 - normalizeTolerance := by
  rw [lt_iff_compare, zero]
  cases sign <;> rfl

/-- A normalizable sum is not a zero, so that zeros do not change it. -/
theorem normalizable_append_iff (zeros : AreZeros leftOut) :
    Normalizable (kept ++ leftOut) ↔ Normalizable kept := by
  unfold Normalizable
  rw [List.foldl_append]
  rcases @foldl_add_zeros (kept.foldl (· + ·) 0.0) leftOut zeros with
    ⟨⟨sign, sumZero⟩, ⟨sign', wholeZero⟩⟩ | same
  · exact iff_of_false (fun whole => whole.2.2.1 (lt_of_zero wholeZero))
      (fun part => part.2.2.1 (lt_of_zero sumZero))
  · have notNegative : (∀ probability ∈ kept ++ leftOut, ¬probability < 0.0) ↔
        ∀ probability ∈ kept, ¬probability < 0.0 := by
      rw [List.forall_mem_append]
      refine and_iff_left fun probability member => ?_
      obtain ⟨sign, zero⟩ := zeros probability member
      exact not_lt_zero_of_zero zero
    rcases eq_or_ne kept [] with rfl | nonempty
    · exact iff_of_false
        (fun whole => whole.2.2.1 (lt_of_zero (same.trans unpack_zero)))
        (fun part => part.1 rfl)
    · have wholeNonempty : kept ++ leftOut ≠ [] := by
        simp [nonempty]
      rw [notNegative]
      simp only [lt_iff_compare, same, nonempty, wholeNonempty, ne_eq,
        not_false_eq_true, true_and]

variable (zeros : AreZeros leftOut) (normalizable : Normalizable kept)
include zeros normalizable

/-- Zeros at the end do not change the sum. -/
theorem probabilitiesSum_append :
    (probabilitiesSum (enumerateChoices (kept ++ leftOut))).toModel.unpack =
      (probabilitiesSum (enumerateChoices kept)).toModel.unpack := by
  unfold probabilitiesSum
  rw [map_probability_enumerateChoices, map_probability_enumerateChoices,
    List.foldl_append]
  rcases @foldl_add_zeros (kept.foldl (· + ·) 0.0) leftOut zeros with
    ⟨⟨sign, sumZero⟩, -⟩ | same
  · exact absurd (lt_of_zero sumZero) normalizable.2.2.1
  · exact same

/-- The search goes over the kept choices first, with the same xi. -/
theorem search_append (randomSeed : String) :
    search X (enumerateChoices (kept ++ leftOut)) randomSeed
        (enumerateChoices (kept ++ leftOut)) =
      FirstLeast.select (normalizedXi X (enumerateChoices kept) randomSeed)
        (search X (enumerateChoices kept) randomSeed (enumerateChoices kept))
        (laterChoices kept.length leftOut) := by
  have sameXi : normalizedXi X (enumerateChoices (kept ++ leftOut)) randomSeed =
      normalizedXi X (enumerateChoices kept) randomSeed := by
    funext choice
    unfold normalizedXi
    rw [div_congr (probabilitiesSum_append zeros normalizable)]
  unfold search
  rw [sameXi, ← FirstLeast.select_append, ← enumerateChoices_append]

omit normalizable in
/-- The later choices are zeros. -/
theorem zero_of_laterChoices {start : ℕ} {choice : DistributionChoice}
    (member : choice ∈ laterChoices start leftOut) :
    ∃ sign, choice.probability.toModel.unpack = .zero sign := by
  obtain ⟨index, inside, rfl⟩ := List.mem_mapIdx.mp member
  exact zeros _ (List.getElem_mem inside)

variable (X randomSeed kept leftOut) in
/-- All kept probabilities are numbers, no kept choice outranks all, and `choice`
is the first left out one that does. -/
def TakesLeftOut (choice : DistributionChoice) : Prop :=
  (∀ choice ∈ enumerateChoices kept, ¬choice.probability.isNaN) ∧
    (∀ choice ∈ enumerateChoices kept, ¬OutranksAll X randomSeed choice) ∧
    FirstLeast.IsFirst (OutranksAll X randomSeed)
      (laterChoices kept.length leftOut) choice

variable (log : LogNonpositive X)
include log

/-- A left out choice that does not outrank all has a xi that is below
nothing. -/
theorem not_normalizedXi_lt_of_later
    (numbers : ∀ choice ∈ enumerateChoices kept, ¬choice.probability.isNaN)
    {choice : DistributionChoice}
    (member : choice ∈ laterChoices kept.length leftOut)
    (notOutranks : ¬OutranksAll X randomSeed choice) (bound : Float) :
    ¬normalizedXi X (enumerateChoices kept) randomSeed choice < bound := by
  obtain ⟨sign, zero⟩ := zero_of_laterChoices zeros member
  rcases normalizedXi_of_zero (normalizable_enumerateChoices normalizable)
    numbers log zero with ⟨-, nan⟩ | ⟨hashPos, infinite⟩
  · exact not_lt_of_top (Or.inl nan)
  · cases sign with
    | positive => exact not_lt_of_top (Or.inr infinite)
    | negative => exact absurd ⟨zero, hashPos⟩ notOutranks

/-- Left out choices that do not outrank the others are never taken. -/
theorem search_append_of_not_taken
    (notTaken : ∀ choice, ¬TakesLeftOut X kept leftOut randomSeed choice) :
    search X (enumerateChoices (kept ++ leftOut)) randomSeed
        (enumerateChoices (kept ++ leftOut)) =
      search X (enumerateChoices kept) randomSeed (enumerateChoices kept) := by
  rw [search_append zeros normalizable]
  by_cases numbers : ∀ choice ∈ enumerateChoices kept, ¬choice.probability.isNaN
  · by_cases keptOutranks :
      ∃ choice ∈ enumerateChoices kept, OutranksAll X randomSeed choice
    · obtain ⟨choice, member, outranks⟩ := keptOutranks
      have ends := search_negative_infinity member
        (normalizedXi_of_outranksAll
          (normalizable_enumerateChoices normalizable) numbers log outranks)
      exact FirstLeast.select_of_bottom
        (fun _ => not_lt_negative_infinity ends) _
    · push Not at keptOutranks
      refine FirstLeast.select_of_not_lt fun choice member =>
        not_normalizedXi_lt_of_later zeros normalizable log numbers member ?_
      intro outranks
      obtain ⟨first, isFirst⟩ := FirstLeast.exists_isFirst member outranks
      exact notTaken first ⟨numbers, keptOutranks, isFirst⟩
  · push Not at numbers
    obtain ⟨choice, member, nan⟩ := numbers
    exact FirstLeast.select_of_not_lt fun other _ bound =>
      not_normalizedXi_lt_of_nan (probabilitiesSum_notANumber member nan) other
        bound

omit zeros in
/-- The xi that the search over the kept choices ends with can be undercut. -/
theorem search_above_bottom
    (numbers : ∀ choice ∈ enumerateChoices kept, ¬choice.probability.isNaN)
    (noneKept : ∀ choice ∈ enumerateChoices kept,
      ¬OutranksAll X randomSeed choice) :
    (search X (enumerateChoices kept) randomSeed
          (enumerateChoices kept)).2.toModel.unpack ≠ .notANumber ∧
      (search X (enumerateChoices kept) randomSeed
          (enumerateChoices kept)).2.toModel.unpack ≠ .infinity .negative := by
  have normalizableKept := normalizable_enumerateChoices normalizable
  unfold search
  rcases FirstLeast.select_eq_start_or
      (normalizedXi X (enumerateChoices kept) randomSeed)
      (⟨0, 0.0⟩, doubleMax) (enumerateChoices kept) with
    ⟨selected, -⟩ | ⟨-, chosen, chosenMem, selected, bound, below⟩
  · rw [selected]
    exact ⟨nofun, nofun⟩
  · rw [selected]
    refine ⟨number_of_lt below, ?_⟩
    rcases possible_of_normalizedXi_lt normalizableKept numbers log chosenMem
      below with above | chosenOutranks
    · exact normalizedXi_ne_negative_infinity normalizableKept numbers log above
    · exact absurd chosenOutranks (noneKept chosen chosenMem)

/-- The first left out choice that outranks the others is taken. -/
theorem search_append_of_taken {choice : DistributionChoice}
    (taken : TakesLeftOut X kept leftOut randomSeed choice) :
    (search X (enumerateChoices (kept ++ leftOut)) randomSeed
      (enumerateChoices (kept ++ leftOut))).1 = choice := by
  obtain ⟨numbers, noneKept, first⟩ := taken
  have bottom {outranking : DistributionChoice} :=
    @normalizedXi_of_outranksAll X _ randomSeed outranking
      (normalizable_enumerateChoices normalizable) numbers log
  have ⟨number, aboveBottom⟩ :=
    search_above_bottom normalizable log numbers noneKept
  rw [search_append zeros normalizable]
  refine congrArg Prod.fst (FirstLeast.select_of_isFirst first ?_ ?_ ?_)
  · intro other member
    exact not_normalizedXi_lt_of_later zeros normalizable log numbers member
  · intro outranks
    exact negative_infinity_lt (bottom outranks) number aboveBottom
  · intro outranks other
    exact not_lt_negative_infinity (bottom outranks)

end DistributedConsistentHashing

end VirtualPeople.Cc
