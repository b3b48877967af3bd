import VirtualPeople.Binary64.Arithmetic
import VirtualPeople.CycleWalk
import VirtualPeople.Messages

/-!
# The Feistel permutation

`FeistelPermute` walks a four-round Feistel network on the pairs of digits
below `half` until it lands in its domain.  For the domain sizes a ranked
population node admits, `half` is the exact ceiling of the square root, the
network permutes the numbers below its square, and the walk is a permutation
of the domain.
-/

namespace VirtualPeople.Cc

open Binary64

variable (X : Externals) (seed : String)

/-- The base of the two digits of a block, at least the root of the domain size. -/
def feistelHalf (domainSize : UInt64) : UInt64 :=
  (ceil domainSize.toFloat.sqrt).toUInt64

/-- A round of the network: the right digit moves left, and is hashed into the
other. -/
def feistelRound (half : UInt64) (block : UInt64 × UInt64) (round : ℕ) :
    UInt64 × UInt64 :=
  let (left, right) := block
  let roundInput :=
    seed ++ "-feistel-" ++ toString round ++ "-" ++ toString right
  let roundHash := X.fingerprint roundInput
  let newRight := (left + roundHash % half) % half
  (right, newRight)

/-- The body of the loop: split, four rounds, and join. -/
def feistelPass (half current : UInt64) : UInt64 :=
  let (left, right) :=
    (List.range 4).foldl (feistelRound X seed half)
      (current / half, current % half)
  left * half + right

/-- The loop has `2 ^ 64` states, so that many passes without a result mean
that it never ends. -/
def feistelPermute (value domainSize : UInt64) : Result UInt64 :=
  if domainSize ≤ 1 then .ok 0
  else
    match CycleWalk.walk (feistelPass X seed (feistelHalf domainSize))
      (· < domainSize) (2 ^ 64) value with
    | some current => .ok current
    | none => .error .divergence

instance finiteUInt64 : Finite UInt64 :=
  Finite.of_injective UInt64.toFin fun _ _ equal => UInt64.toFin_inj.mp equal

theorem ncard_univ_le : (Set.univ : Set UInt64).ncard ≤ 2 ^ 64 := by
  rw [Set.ncard_univ]
  have cardLe := Nat.card_le_card_of_injective UInt64.toFin
    fun _ _ equal => UInt64.toFin_inj.mp equal
  rwa [Nat.card_eq_fintype_card (α := Fin UInt64.size), Fintype.card_fin]
    at cardLe

/-- The model diverges exactly when no pass ever lands in the domain. -/
theorem feistelPermute_eq_divergence {value domainSize : UInt64}
    (diverges :
      feistelPermute X seed value domainSize = .error .divergence)
    (count : ℕ) :
    ¬(feistelPass X seed (feistelHalf domainSize))^[count + 1] value <
      domainSize := by
  unfold feistelPermute at diverges
  split_ifs at diverges
  refine CycleWalk.walk_eq_none (· < domainSize) Set.univ Set.finite_univ
    (Set.mapsTo_univ _ _) (Set.mem_univ value) ncard_univ_le ?_ count
  split at diverges
  · contradiction
  · assumption

/-- The permuted value is inside of the domain. -/
theorem feistelPermute_lt {value domainSize result : UInt64}
    (positive : 0 < domainSize)
    (found : feistelPermute X seed value domainSize = .ok result) :
    result < domainSize := by
  unfold feistelPermute at found
  split_ifs at found with small
  · rwa [← Except.ok.inj found]
  · split at found
    · rename_i current walked
      rw [← Except.ok.inj found]
      exact CycleWalk.walk_stops (· < domainSize) walked
    · contradiction

/-! ## The square root -/

/-- The exact ceiling of the square root, for sizes below `2 ^ 31`. -/
theorem feistelHalf_spec {domainSize : UInt64}
    (positive : 0 < domainSize.toNat) (lt : domainSize.toNat < 2 ^ 31) :
    domainSize.toNat ≤
        (feistelHalf domainSize).toNat * (feistelHalf domainSize).toNat ∧
      ∀ bound : ℕ, domainSize.toNat ≤ bound * bound →
        (feistelHalf domainSize).toNat ≤ bound := by
  obtain ⟨size, sizeEq⟩ : ∃ size, domainSize.toNat = size := ⟨_, rfl⟩
  have representsSize := represents_toFloat_exact (n := domainSize) (by omega)
  rw [sizeEq] at positive lt representsSize ⊢
  have sizeCast : (1 : ℝ) ≤ size := by exact_mod_cast positive
  have sizeCastLt : (size : ℝ) ≤ (2 : ℝ) ^ 32 := by
    exact_mod_cast (by omega : size ≤ 2 ^ 32)
  have representsRoot := representsSize.sqrt (by linarith)
    (.of_nat positive (by omega))
  obtain ⟨root, rootDef⟩ : ∃ root, roundMagnitude (Real.sqrt (size : ℝ)) = root :=
    ⟨_, rfl⟩
  rw [rootDef] at representsRoot
  have sqrtPos : 0 < Real.sqrt (size : ℝ) := Real.sqrt_pos.mpr (by linarith)
  -- A whole number above the square root is above the rounded root.
  have rootLe (bound : ℕ) (boundLe : bound ≤ 2 ^ 53)
      (le : size ≤ bound * bound) : root ≤ bound := by
    rw [← rootDef]
    apply (Representable.natCast boundLe).roundMagnitude_le sqrtPos
    apply Real.sqrt_le_iff.mpr ⟨Nat.cast_nonneg _, ?_⟩
    rw [sq]
    exact_mod_cast le
  have rootLeSmall : root ≤ (2 ^ 16 : ℕ) := rootLe (2 ^ 16) (by norm_num)
    (by omega)
  have rootPos : 0 ≤ root := representsRoot.nonneg
  obtain ⟨half, halfDef⟩ : ∃ half : ℕ, ⌈root⌉ = half :=
    Int.eq_ofNat_of_zero_le (Int.ceil_nonneg rootPos)
  have halfLe : half ≤ 2 ^ 16 := by
    have : ⌈root⌉ ≤ (2 ^ 16 : ℕ) := Int.ceil_le.mpr (by exact_mod_cast rootLeSmall)
    omega
  have halfEq : (feistelHalf domainSize).toNat = half := by
    have representsCeil := representsRoot.ceil
      (rootLeSmall.trans (by norm_num))
    rw [halfDef] at representsCeil
    exact representsCeil.toUInt64 (by simp) (by omega)
  rw [halfEq]
  constructor
  · by_contra large
    -- Then the root would be at least a representable number above `half`.
    have halfCast : (half : ℝ) ≤ 2 ^ 16 := by exact_mod_cast halfLe
    have above : (half : ℝ) + (2 : ℝ) ^ (-20 : ℤ) ≤ Real.sqrt size := by
      apply Real.le_sqrt_of_sq_le
      have : ((half * half + 1 : ℕ) : ℝ) ≤ size := by
        exact_mod_cast not_le.mp large
      push_cast at this
      have power : (2 : ℝ) ^ (-20 : ℤ) = 1 / 1048576 := by norm_num
      rw [power]
      nlinarith
    have representable : Representable ((half : ℝ) + (2 : ℝ) ^ (-20 : ℤ)) := by
      refine ⟨half * 2 ^ 20 + 1, -20, by omega, by norm_num, ?_⟩
      push_cast
      rw [add_mul, one_mul, mul_assoc]
      norm_num
    have rootGe := representable.le_roundMagnitude (by positivity) above
    have ceilGe : root ≤ half := by
      have := Int.le_ceil root
      rw [halfDef] at this
      exact_mod_cast this
    rw [rootDef] at rootGe
    have := two_zpow_pos (K := ℝ) (-20)
    linarith
  · intro bound le
    rcases le_total bound (2 ^ 53) with small | large
    · have : ⌈root⌉ ≤ bound := Int.ceil_le.mpr
        (by exact_mod_cast rootLe bound small le)
      omega
    · omega

/-- The base is the exact root of the size, rounded up. -/
theorem feistelHalf_eq_ceil_sqrt {domainSize : UInt64}
    (positive : 0 < domainSize.toNat) (lt : domainSize.toNat < 2 ^ 31) :
    (feistelHalf domainSize).toNat = ⌈Real.sqrt domainSize.toNat⌉₊ := by
  obtain ⟨covers, least⟩ := feistelHalf_spec positive lt
  apply le_antisymm
  · apply least
    have sqrtLe := Nat.le_ceil (Real.sqrt domainSize.toNat)
    rw [Real.sqrt_le_left (Nat.cast_nonneg _), sq] at sqrtLe
    exact_mod_cast sqrtLe
  · rw [Nat.ceil_le, Real.sqrt_le_left (Nat.cast_nonneg _), sq]
    exact_mod_cast covers

/-! ## The network -/

/-- The round functions of the network, on numbers. -/
def feistelKeys (half : UInt64) : List (ℕ → ℕ) :=
  (List.range 4).map fun round right =>
    (X.fingerprint (seed ++ "-feistel-" ++ toString round ++ "-" ++
      toString (UInt64.ofNat right))).toNat % half.toNat

/-- A block of two machine words as a block of numbers. -/
def blockToNat (block : UInt64 × UInt64) : ℕ × ℕ :=
  (block.1.toNat, block.2.toNat)

/-- A round on 64-bit digits is a round of the network. -/
theorem blockToNat_feistelRound {half : UInt64} (small : half.toNat ≤ 2 ^ 16)
    {block : UInt64 × UInt64}
    (digits : blockToNat block ∈ FeistelNetwork.Digits half.toNat)
    (round : ℕ) :
    blockToNat (feistelRound X seed half block round) =
      FeistelNetwork.round half.toNat (blockToNat block) fun right =>
        (X.fingerprint (seed ++ "-feistel-" ++ toString round ++ "-" ++
          toString (UInt64.ofNat right))).toNat % half.toNat := by
  obtain ⟨left, right⟩ := block
  obtain ⟨leftLt, rightLt⟩ := digits
  simp only [blockToNat] at leftLt rightLt
  have hashLt (hash : UInt64) : hash.toNat % half.toNat < half.toNat :=
    Nat.mod_lt _ (Nat.zero_lt_of_lt leftLt)
  simp only [blockToNat, feistelRound, FeistelNetwork.round, UInt64.toNat_mod,
    UInt64.toNat_add, UInt64.ofNat_toNat, Prod.mk.injEq, true_and]
  have := hashLt (X.fingerprint (seed ++ "-feistel-" ++ toString round ++ "-" ++
    toString right))
  rw [Nat.mod_eq_of_lt (a := left.toNat + _) (by omega)]

/-- Rounds on 64-bit digits are rounds of the network. -/
theorem blockToNat_feistelRounds {half : UInt64}
    (small : half.toNat ≤ 2 ^ 16) (rounds : List ℕ)
    {block : UInt64 × UInt64}
    (digits : blockToNat block ∈ FeistelNetwork.Digits half.toNat) :
    blockToNat (rounds.foldl (feistelRound X seed half) block) =
      FeistelNetwork.rounds half.toNat
        (rounds.map fun round right =>
          (X.fingerprint (seed ++ "-feistel-" ++ toString round ++ "-" ++
            toString (UInt64.ofNat right))).toNat % half.toNat)
        (blockToNat block) := by
  induction rounds generalizing block with
  | nil => rfl
  | cons round rounds inductionHypothesis =>
    have roundEq := blockToNat_feistelRound X seed small digits round
    rw [List.foldl_cons, inductionHypothesis, roundEq]
    · rfl
    · rw [roundEq]
      exact FeistelNetwork.round_mapsTo _ _ digits

/-- One pass is the network on numbers below the square of `half`. -/
theorem toNat_feistelPass {half current : UInt64}
    (small : half.toNat ≤ 2 ^ 16)
    (currentLt : current.toNat < half.toNat * half.toNat) :
    (feistelPass X seed half current).toNat =
      FeistelNetwork.permute half.toNat (feistelKeys X seed half)
        current.toNat := by
  have splitEq : blockToNat (current / half, current % half) =
      FeistelNetwork.split half.toNat current.toNat := by
    simp [blockToNat, FeistelNetwork.split]
  have digits := FeistelNetwork.split_mapsTo half.toNat currentLt
  have roundsEq := @blockToNat_feistelRounds X seed half small (List.range 4)
    (current / half, current % half) (by rwa [splitEq])
  have roundsDigits := FeistelNetwork.rounds_mapsTo half.toNat
    (feistelKeys X seed half) digits
  rw [splitEq] at roundsEq
  change blockToNat _ = FeistelNetwork.rounds half.toNat
    (feistelKeys X seed half) _ at roundsEq
  unfold feistelPass FeistelNetwork.permute
  obtain ⟨⟨left, right⟩, blockEq⟩ : ∃ block, (List.range 4).foldl
      (feistelRound X seed half) (current / half, current % half) = block :=
    ⟨_, rfl⟩
  rw [blockEq] at roundsEq ⊢
  rw [← roundsEq] at roundsDigits ⊢
  have joined := FeistelNetwork.join_lt roundsDigits
  simp only [FeistelNetwork.join, blockToNat, UInt64.toNat_add,
    UInt64.toNat_mul] at joined ⊢
  have squareLe : half.toNat * half.toNat ≤ 2 ^ 16 * 2 ^ 16 :=
    Nat.mul_le_mul small small
  rw [Nat.mod_eq_of_lt (a := left.toNat * half.toNat) (by omega),
    Nat.mod_eq_of_lt (by omega)]

/-! ## The permutation -/

/-- The machine words below the square of `half`. -/
def feistelDomain (half : UInt64) : Set UInt64 :=
  {current | current.toNat < half.toNat * half.toNat}

/-- A pass stays among the blocks. -/
theorem feistelPass_mapsTo {half : UInt64} (small : half.toNat ≤ 2 ^ 16) :
    Set.MapsTo (feistelPass X seed half) (feistelDomain half)
      (feistelDomain half) := by
  intro current currentLt
  change (feistelPass X seed half current).toNat < _
  rw [toNat_feistelPass X seed small currentLt]
  exact FeistelNetwork.permute_mapsTo _ _ currentLt

/-- A pass takes different blocks to different ones. -/
theorem feistelPass_injOn {half : UInt64} (small : half.toNat ≤ 2 ^ 16) :
    Set.InjOn (feistelPass X seed half) (feistelDomain half) := by
  intro current currentLt current' currentLt' equal
  have images := congrArg UInt64.toNat equal
  rw [toNat_feistelPass X seed small currentLt,
    toNat_feistelPass X seed small currentLt'] at images
  exact UInt64.toNat_inj.mp
    (FeistelNetwork.permute_injOn _ _ currentLt currentLt' images)

/-- What the walk needs to know about `half`. -/
theorem feistelHalf_bounds {domainSize : UInt64}
    (positive : 0 < domainSize.toNat) (lt : domainSize.toNat < 2 ^ 31) :
    (feistelHalf domainSize).toNat ≤ 2 ^ 16 ∧
      ∀ value < domainSize, value ∈ feistelDomain (feistelHalf domainSize) := by
  obtain ⟨covers, least⟩ := feistelHalf_spec positive lt
  refine ⟨least (2 ^ 16) (by omega), ?_⟩
  intro value valueLt
  exact lt_of_lt_of_le (UInt64.lt_iff_toNat_lt.mp valueLt) covers

/-- The loop ends for every value of the domain. -/
theorem feistelPermute_isOk {value domainSize : UInt64}
    (lt : domainSize.toNat < 2 ^ 31) (valueLt : value < domainSize) :
    ∃ result, feistelPermute X seed value domainSize = .ok result := by
  unfold feistelPermute
  split_ifs with small
  · exact ⟨0, rfl⟩
  · have positive := UInt64.lt_iff_toNat_lt.mp valueLt
    obtain ⟨halfLe, inDomain⟩ := feistelHalf_bounds (by omega) lt
    obtain ⟨result, walked, -⟩ := CycleWalk.walk_isSome
      (· < domainSize) (Set.toFinite _)
      (feistelPass_mapsTo X seed halfLe) (feistelPass_injOn X seed halfLe)
      (inDomain value valueLt) valueLt
      ((Set.ncard_le_ncard (Set.subset_univ _)).trans ncard_univ_le)
    exact ⟨result, by rw [walked]⟩

/-- Different values of the domain are permuted to different results. -/
theorem feistelPermute_injective {value value' domainSize result : UInt64}
    (lt : domainSize.toNat < 2 ^ 31) (valueLt : value < domainSize)
    (valueLt' : value' < domainSize)
    (found : feistelPermute X seed value domainSize = .ok result)
    (found' : feistelPermute X seed value' domainSize = .ok result) :
    value = value' := by
  unfold feistelPermute at found found'
  split_ifs at found found' with small
  · have := UInt64.lt_iff_toNat_lt.mp valueLt
    have := UInt64.lt_iff_toNat_lt.mp valueLt'
    have := UInt64.le_iff_toNat_le.mp small
    apply UInt64.toNat_inj.mp
    simp only [UInt64.toNat_one] at this
    omega
  · have positive := UInt64.lt_iff_toNat_lt.mp valueLt
    obtain ⟨halfLe, inDomain⟩ := feistelHalf_bounds (by omega) lt
    split at found <;> split at found' <;> try contradiction
    rename_i current walked _ current' walked'
    rw [Except.ok.inj found] at walked
    rw [Except.ok.inj found'] at walked'
    exact CycleWalk.walk_injective (· < domainSize)
      (feistelPass_mapsTo X seed halfLe) (feistelPass_injOn X seed halfLe)
      (inDomain value valueLt) (inDomain value' valueLt') valueLt valueLt'
      walked walked'

/-- The result is the first value of the walk that is in the domain. -/
theorem exists_passes_of_feistelPermute {value domainSize result : UInt64}
    (large : 1 < domainSize)
    (found : feistelPermute X seed value domainSize = .ok result) :
    ∃ passes,
      (feistelPass X seed (feistelHalf domainSize))^[passes + 1] value =
          result ∧
        ∀ earlier < passes,
          ¬(feistelPass X seed (feistelHalf domainSize))^[earlier + 1] value <
            domainSize := by
  unfold feistelPermute at found
  rw [if_neg (UInt64.not_le.mpr large)] at found
  split at found
  · rename_i current walked
    obtain ⟨passes, -, reached, -, notBefore⟩ :=
      CycleWalk.walk_eq_some_iff.mp walked
    exact ⟨passes, reached.trans (Except.ok.inj found), notBefore⟩
  · contradiction

/-- `feistelPermute` as a permutation of the values of its domain. -/
theorem exists_perm_feistelPermute {domainSize : UInt64}
    (lt : domainSize.toNat < 2 ^ 31) :
    ∃ permutation : Equiv.Perm {value : UInt64 // value < domainSize},
      ∀ value, feistelPermute X seed value.1 domainSize =
        .ok (permutation value).1 := by
  choose permute permuteEq using
    fun value : {value : UInt64 // value < domainSize} =>
      feistelPermute_isOk X seed lt value.2
  have permuteLt (value) : permute value < domainSize := by
    refine feistelPermute_lt X seed ?_ (permuteEq value)
    exact UInt64.lt_of_le_of_lt UInt64.zero_le value.2
  let onDomain (value : {value : UInt64 // value < domainSize}) :
      {value : UInt64 // value < domainSize} :=
    ⟨permute value, permuteLt value⟩
  have injective : Function.Injective onDomain := by
    intro value value' same
    have sameResult : permute value = permute value' :=
      congrArg Subtype.val same
    refine Subtype.ext (feistelPermute_injective X seed lt value.2 value'.2
      (permuteEq value) ?_)
    rw [sameResult]
    exact permuteEq value'
  exact ⟨Equiv.ofBijective onDomain (Finite.injective_iff_bijective.mp injective),
    permuteEq⟩

/-- Every value of the domain is the result of one. -/
theorem feistelPermute_surjective {domainSize result : UInt64}
    (lt : domainSize.toNat < 2 ^ 31) (resultLt : result < domainSize) :
    ∃ value < domainSize,
      feistelPermute X seed value domainSize = .ok result := by
  obtain ⟨permutation, permutationEq⟩ := exists_perm_feistelPermute X seed lt
  refine ⟨permutation.symm ⟨result, resultLt⟩, (permutation.symm _).2, ?_⟩
  rw [permutationEq, Equiv.apply_symm_apply]

end VirtualPeople.Cc
