import VirtualPeople.FirstLeast
import VirtualPeople.Kotlin.PopulationNodeHelper

/-!
# Consistency of distributed consistent hashing

The loop of `Hash` is the search for the first least xi, for any type of
numbers.  On doubles it is the loop of the code.  In exact arithmetic, where
dividing by a zero probability gives an infinite xi, an event moves from one
choice to another only if the probability of the second one grew relative to
the first one.
-/

namespace VirtualPeople.Cc.DistributedConsistentHashing

/-! ## The loop over any numbers -/

/-- The loop of `Hash` over pairs of a choice id and a probability. -/
def hashBy {Probability Xi : Type*} [LT Xi] [DecidableLT Xi]
    (computeXi : ℤ → Probability → Xi) (initialXi : Xi)
    (distribution : List (ℤ × Probability)) : ℤ :=
  (distribution.foldl
    (fun chosen choice =>
      let xi := computeXi choice.1 choice.2
      if xi < chosen.2 then (choice.1, xi) else chosen)
    (0, initialXi)).1

/-- The choice id and the probability of each choice. -/
def choices (hashing : DistributedConsistentHashing) : List (ℤ × Float) :=
  hashing.distribution.map fun choice => (choice.choiceId, choice.probability)

/-- The code runs the loop on doubles. -/
theorem hash_eq_hashBy (X : Externals)
    (hashing : DistributedConsistentHashing) (randomSeed : String) :
    hashing.hash X randomSeed =
      hashBy (computeXi X randomSeed) doubleMax hashing.choices := by
  rw [hashBy, choices, List.foldl_map]
  rfl

/-- So does the Kotlin library. -/
theorem kotlin_hash_eq_hashBy (X : Externals)
    (hashing : Kotlin.DistributedConsistentHashing) (randomSeed : String) :
    hashing.hash X randomSeed = hashBy (computeXi X randomSeed) doubleMax
      (choices ⟨hashing.normalizedDistribution⟩) := by
  rw [← hash_eq_hashBy]
  exact Kotlin.DistributedConsistentHashing.hash_eq rfl randomSeed

/-- For probabilities that depend on the id, the loop selects an id of first
least xi. -/
theorem hashBy_map {Probability Xi : Type*} [LT Xi] [DecidableLT Xi]
    (computeXi : ℤ → Probability → Xi) (initialXi : Xi) (ids : List ℤ)
    (probability : ℤ → Probability) :
    hashBy computeXi initialXi (ids.map fun id => (id, probability id)) =
      (FirstLeast.select (fun id => computeXi id (probability id))
        (0, initialXi) ids).1 := by
  rw [hashBy, List.foldl_map]
  rfl

/-! ## Exact arithmetic -/

section Exact

variable {K : Type*} [Field K] [LinearOrder K]

/-- `ComputeXi` in exact arithmetic. -/
def exactXi (expHash : String → K) (randomSeed : String) (choice : ℤ)
    (probability : K) : WithTop K :=
  if probability = 0 then ⊤
  else ↑(expHash (getFullSeed randomSeed choice) / probability)

/-- The probabilities after `Build`, by choice id. -/
structure Normalized (ids : List ℤ) (probability : ℤ → K) : Prop where
  nonneg : ∀ id ∈ ids, 0 ≤ probability id
  sum_eq_one : (ids.map probability).sum = 1

/-- Every finite xi of the distribution is below the bound. -/
def BoundsXi (expHash : String → K) (randomSeed : String) (ids : List ℤ)
    (probability : ℤ → K) (bound : WithTop K) : Prop :=
  ∀ id ∈ ids, ∀ xi : K,
    exactXi expHash randomSeed id (probability id) = xi → (xi : WithTop K) < bound

variable {expHash : String → K} {randomSeed : String}

/-- The value of a possible choice is a quotient. -/
theorem exactXi_of_ne_zero {choice : ℤ} {probability : K}
    (nonzero : probability ≠ 0) :
    exactXi expHash randomSeed choice probability =
      ↑(expHash (getFullSeed randomSeed choice) / probability) :=
  if_neg nonzero

/-- A choice with a finite value is possible. -/
theorem ne_zero_of_exactXi_lt {choice : ℤ} {probability : K}
    {bound : WithTop K}
    (below : exactXi expHash randomSeed choice probability < bound) :
    probability ≠ 0 := by
  rintro rfl
  rw [exactXi, if_pos rfl] at below
  exact not_top_lt below

variable [IsStrictOrderedRing K]

/-- The division by the sum that ends `Build` normalizes the probabilities. -/
theorem normalized_div_sum {ids : List ℤ} {probability : ℤ → K}
    (nonneg : ∀ id ∈ ids, 0 ≤ probability id)
    (nonzero : (ids.map probability).sum ≠ 0) :
    Normalized ids fun id => probability id / (ids.map probability).sum where
  nonneg id mem := by
    refine div_nonneg (nonneg id mem) (List.sum_nonneg ?_)
    intro probability' inMap
    obtain ⟨id', mem', rfl⟩ := List.mem_map.mp inMap
    exact nonneg id' mem'
  sum_eq_one := by
    simp only [div_eq_mul_inv, List.sum_map_mul_right]
    exact mul_inv_cancel₀ nonzero

/-- Normalized probabilities are not all zero. -/
theorem Normalized.exists_ne_zero {ids : List ℤ} {probability : ℤ → K}
    (normalized : Normalized ids probability) :
    ∃ id ∈ ids, probability id ≠ 0 := by
  by_contra! allZero
  have sumZero : (ids.map probability).sum = 0 := by
    apply List.sum_eq_zero
    intro value inMap
    obtain ⟨id, mem, rfl⟩ := List.mem_map.mp inMap
    exact allZero id mem
  rw [normalized.sum_eq_one] at sumZero
  exact one_ne_zero sumZero

/-- `Hash` returns the first id of least xi, which is finite. -/
theorem hashBy_isFirstLeast {ids : List ℤ} {probability : ℤ → K}
    (normalized : Normalized ids probability) {initialXi : WithTop K}
    (bounds : BoundsXi expHash randomSeed ids probability initialXi) :
    let id := hashBy (exactXi expHash randomSeed) initialXi
      (ids.map fun id => (id, probability id))
    0 < probability id ∧
      FirstLeast.IsFirstLeast
        (fun id => exactXi expHash randomSeed id (probability id)) ids id := by
  obtain ⟨positiveId, positiveMem, nonzero⟩ := normalized.exists_ne_zero
  have finite := @exactXi_of_ne_zero K _ _ expHash randomSeed positiveId _
    nonzero
  have belowInitial :=
    finite.trans_lt (bounds positiveId positiveMem _ finite)
  obtain ⟨chosen, selected, below, least⟩ := @FirstLeast.select_of_lt _ _ _
    (fun id => exactXi expHash randomSeed id (probability id)) (0, initialXi)
    ids positiveId positiveMem belowInitial
  rw [hashBy_map, selected]
  exact ⟨(normalized.nonneg chosen least.mem).lt_of_ne'
    (ne_zero_of_exactXi_lt below), least⟩

/-- Comparing a finite xi with another one, without dividing. -/
theorem mul_le_of_exactXi_le {a b : ℤ} {pa pb : K} (positive : 0 < pa)
    (nonneg : 0 ≤ pb) (hashNonneg : 0 ≤ expHash (getFullSeed randomSeed b))
    (le : exactXi expHash randomSeed a pa ≤ exactXi expHash randomSeed b pb) :
    expHash (getFullSeed randomSeed a) * pb ≤
      expHash (getFullSeed randomSeed b) * pa := by
  rcases nonneg.eq_or_lt with zero | positive'
  · rw [← zero, mul_zero]
    exact mul_nonneg hashNonneg positive.le
  · rwa [exactXi_of_ne_zero positive.ne', exactXi_of_ne_zero positive'.ne',
      WithTop.coe_le_coe, div_le_div_iff₀ positive positive'] at le

/-- Values compare as the products of hashes and probabilities do. -/
theorem mul_lt_of_exactXi_lt {a b : ℤ} {pa pb : K} (positive : 0 < pa)
    (nonneg : 0 ≤ pb) (hashPos : 0 < expHash (getFullSeed randomSeed b))
    (less : exactXi expHash randomSeed a pa < exactXi expHash randomSeed b pb) :
    expHash (getFullSeed randomSeed a) * pb <
      expHash (getFullSeed randomSeed b) * pa := by
  rcases nonneg.eq_or_lt with zero | positive'
  · rw [← zero, mul_zero]
    exact mul_pos hashPos positive
  · rwa [exactXi_of_ne_zero positive.ne', exactXi_of_ne_zero positive'.ne',
      WithTop.coe_lt_coe, div_lt_div_iff₀ positive positive'] at less

/-- An event moves from `a` to `b` only if the probability of `b` grew relative
to the probability of `a`. -/
theorem moves_to_grown {ids : List ℤ} {p p' : ℤ → K}
    (normalized : Normalized ids p) (normalized' : Normalized ids p')
    (expHash : String → K) (randomSeed : String)
    (hashPos : ∀ id ∈ ids, 0 < expHash (getFullSeed randomSeed id))
    {initialXi : WithTop K}
    (bounds : BoundsXi expHash randomSeed ids p initialXi)
    (bounds' : BoundsXi expHash randomSeed ids p' initialXi) {a b : ℤ}
    (hashed : hashBy (exactXi expHash randomSeed) initialXi
      (ids.map fun id => (id, p id)) = a)
    (hashed' : hashBy (exactXi expHash randomSeed) initialXi
      (ids.map fun id => (id, p' id)) = b)
    (moved : b ≠ a) : p b * p' a < p a * p' b := by
  obtain ⟨aPos, least⟩ := hashBy_isFirstLeast normalized bounds
  obtain ⟨bPos, least'⟩ := hashBy_isFirstLeast normalized' bounds'
  rw [hashed] at aPos least
  rw [hashed'] at bPos least'
  have aHash := hashPos a least.mem
  have bHash := hashPos b least'.mem
  have pbNonneg := normalized.nonneg b least'.mem
  have paNonneg' := normalized'.nonneg a least.mem
  have le := mul_le_of_exactXi_le aPos pbNonneg bHash.le (least.le least'.mem)
  have le' := mul_le_of_exactXi_le bPos paNonneg' aHash.le
    (least'.le least.mem)
  -- The hashes cancel from the product of the two comparisons.
  have product : expHash (getFullSeed randomSeed a) * p b *
        (expHash (getFullSeed randomSeed b) * p' a) <
      expHash (getFullSeed randomSeed b) * p a *
        (expHash (getFullSeed randomSeed a) * p' b) := by
    rcases least.lt_or_lt least' moved.symm with less | less'
    · exact mul_lt_mul_of_lt_of_le_of_nonneg_of_pos
        (mul_lt_of_exactXi_lt aPos pbNonneg bHash less) le'
        (mul_nonneg aHash.le pbNonneg) (mul_pos aHash bPos)
    · exact mul_lt_mul_of_le_of_lt_of_nonneg_of_pos le
        (mul_lt_of_exactXi_lt bPos paNonneg' aHash less')
        (mul_nonneg bHash.le paNonneg') (mul_pos bHash aPos)
  refine lt_of_mul_lt_mul_left ?_ (mul_pos aHash bHash).le
  linarith

end Exact

/-- Moving from even chances to one and three quarters, with equal hashes. -/
theorem moves_to_grown_quarters :
    let p : ℤ → ℚ := fun _ => 1 / 2
    let p' : ℤ → ℚ := fun id => if id = 0 then 1 / 4 else 3 / 4
    let hash (p : ℤ → ℚ) := hashBy (exactXi (fun _ => (1 : ℚ)) "seed") 10
      ([0, 1].map fun id => (id, p id))
    hash p = 0 ∧ hash p' = 1 ∧ p 1 * p' 0 < p 0 * p' 1 := by
  intro p p' hash
  have hashed : hash p = 0 := by decide +kernel
  have hashed' : hash p' = 1 := by decide +kernel
  refine ⟨hashed, hashed', moves_to_grown ⟨by decide +kernel, by decide +kernel⟩
    ⟨by decide +kernel, by decide +kernel⟩ _ _ (fun _ _ => one_pos) ?_ ?_ hashed
    hashed' one_ne_zero⟩
  · intro id mem xi finite
    rw [← finite]
    clear finite
    revert id
    decide +kernel
  · intro id mem xi finite
    rw [← finite]
    clear finite
    revert id
    decide +kernel

end VirtualPeople.Cc.DistributedConsistentHashing
