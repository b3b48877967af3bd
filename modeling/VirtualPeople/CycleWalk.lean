import Mathlib.Data.Set.Card
import Mathlib.Dynamics.PeriodicPts.Lemmas
import Mathlib.Order.Interval.Finset.Nat
import Mathlib.Tactic.Ring

/-!
# Feistel networks and cycle walking

A Feistel network permutes the pairs of digits below a base, and cycle walking
turns a permutation of a larger set into one of a smaller set by applying it
until the result falls inside.  The walk is written with fuel; as many steps as
the larger set has elements are enough, and with fewer visits than that the
walk can only be going round a cycle that never enters the smaller set.
-/

namespace CycleWalk

variable {α : Type*} {step : α → α} {stop : α → Prop} [DecidablePred stop]

/-- Apply `step` at least once, and again until `stop` holds. -/
def walk (step : α → α) (stop : α → Prop) [DecidablePred stop] :
    ℕ → α → Option α
  | 0, _ => none
  | fuel + 1, current =>
    if stop (step current) then some (step current)
    else walk step stop fuel (step current)

/-- The walk returns the first later point of the orbit where it may stop. -/
theorem walk_eq_some_iff {fuel : ℕ} {start result : α} :
    walk step stop fuel start = some result ↔
      ∃ count < fuel, step^[count + 1] start = result ∧ stop result ∧
        ∀ earlier < count, ¬stop (step^[earlier + 1] start) := by
  induction fuel generalizing start with
  | zero => simp [walk]
  | succ fuel inductionHypothesis =>
    simp only [walk]
    split_ifs with stops
    · constructor
      · intro found
        rw [Option.some_inj] at found
        exact ⟨0, by omega, found, found ▸ stops, by simp⟩
      · rintro ⟨count, -, reached, -, notBefore⟩
        rcases Nat.eq_zero_or_pos count with zero | positive
        · subst zero
          simpa using reached
        · exact absurd stops (notBefore 0 positive)
    · rw [inductionHypothesis]
      constructor
      · rintro ⟨count, countLt, reached, resultStops, notBefore⟩
        refine ⟨count + 1, by omega, by simpa using reached, resultStops, ?_⟩
        intro earlier earlierLt
        rcases earlier with _ | earlier
        · exact stops
        · simpa using notBefore earlier (by omega)
      · rintro ⟨count, countLt, reached, resultStops, notBefore⟩
        rcases count with _ | count
        · rw [← reached] at resultStops
          exact absurd resultStops stops
        · refine ⟨count, by omega, by simpa using reached, resultStops, ?_⟩
          intro earlier earlierLt
          simpa using notBefore (earlier + 1) (by omega)

variable (stop) in
theorem walk_stops {fuel : ℕ} {start result : α}
    (found : walk step stop fuel start = some result) : stop result := by
  obtain ⟨_, _, _, stops, _⟩ := walk_eq_some_iff.mp found
  exact stops

variable {domain : Set α}

/-- An orbit that stops at all stops within the size of its domain: were it
longer, it would have repeated a point where it did not stop. -/
theorem walk_isSome_of_exists (finite : domain.Finite)
    (mapsTo : Set.MapsTo step domain domain) {start : α}
    (inDomain : start ∈ domain)
    (reaches : ∃ count, stop (step^[count + 1] start)) {fuel : ℕ}
    (enough : domain.ncard ≤ fuel) :
    ∃ result, walk step stop fuel start = some result ∧ result ∈ domain := by
  classical
  obtain ⟨count, stops, notBefore⟩ :
      ∃ count, stop (step^[count + 1] start) ∧
        ∀ earlier < count, ¬stop (step^[earlier + 1] start) :=
    ⟨Nat.find reaches, Nat.find_spec reaches,
      fun _ less => Nat.find_min reaches less⟩
  have inOrbit (n : ℕ) : step^[n] start ∈ domain :=
    mapsTo.iterate n inDomain
  have distinct : Set.InjOn (fun n => step^[n + 1] start)
      (Set.Iic count) := by
    have noRepeat {first second : ℕ} (less : first < second)
        (le : second ≤ count)
        (equal : step^[first + 1] start = step^[second + 1] start) : False := by
      -- Two equal points stop after equally many further steps.
      have shifted : step^[count - second + first + 1] start =
          step^[count + 1] start := by
        rw [show count - second + first + 1 = (count - second) + (first + 1)
            by omega, Function.iterate_add_apply, equal,
          ← Function.iterate_add_apply]
        congr 1
        omega
      exact notBefore (count - second + first) (by omega)
        (by rw [shifted]; exact stops)
    intro first firstLe second secondLe equal
    rcases lt_trichotomy first second with less | same | greater
    · exact (noRepeat less secondLe equal).elim
    · exact same
    · exact (noRepeat greater firstLe equal.symm).elim
  have countLt : count < domain.ncard := by
    have cardLe := Set.ncard_le_ncard_of_injOn
      (s := Set.Iic count) (t := domain) _ (fun n _ => inOrbit (n + 1))
      distinct finite
    rw [← Finset.coe_Iic, Set.ncard_coe_finset, Nat.card_Iic] at cardLe
    omega
  exact ⟨_, walk_eq_some_iff.mpr
    ⟨count, countLt.trans_le enough, rfl, stops, notBefore⟩, inOrbit _⟩

variable (stop domain) in
/-- A walk that uses up that much fuel never stops. -/
theorem walk_eq_none (finite : domain.Finite)
    (mapsTo : Set.MapsTo step domain domain) {start : α}
    (inDomain : start ∈ domain) {fuel : ℕ} (enough : domain.ncard ≤ fuel)
    (exhausted : walk step stop fuel start = none) (count : ℕ) :
    ¬stop (step^[count + 1] start) := by
  intro stops
  obtain ⟨result, found, -⟩ := walk_isSome_of_exists finite mapsTo inDomain
    ⟨count, stops⟩ enough
  rw [exhausted] at found
  contradiction

/-- A permutation of a finite set leads every point of the smaller set back
to it. -/
theorem exists_iterate_eq (finite : domain.Finite)
    (mapsTo : Set.MapsTo step domain domain)
    (injOn : Set.InjOn step domain) {start : α} (inDomain : start ∈ domain) :
    ∃ count, step^[count + 1] start = start := by
  have := finite.to_subtype
  have injective : Function.Injective (mapsTo.restrict step domain domain) :=
    mapsTo.restrict_inj.mpr injOn
  obtain ⟨period, periodPos, periodic⟩ := Function.mem_periodicPts.mp
    (injective.mem_periodicPts ⟨start, inDomain⟩)
  obtain ⟨count, rfl⟩ : ∃ count, period = count + 1 :=
    ⟨period - 1, by omega⟩
  refine ⟨count, ?_⟩
  have value := congrArg Subtype.val periodic
  rwa [Set.MapsTo.iterate_restrict] at value

variable (stop) in
/-- Cycle walking on a permutation always returns, inside the domain. -/
theorem walk_isSome (finite : domain.Finite)
    (mapsTo : Set.MapsTo step domain domain)
    (injOn : Set.InjOn step domain) {start : α} (inDomain : start ∈ domain)
    (startStops : stop start) {fuel : ℕ} (enough : domain.ncard ≤ fuel) :
    ∃ result, walk step stop fuel start = some result ∧ result ∈ domain := by
  obtain ⟨count, returns⟩ := exists_iterate_eq finite mapsTo injOn inDomain
  exact walk_isSome_of_exists finite mapsTo inDomain
    ⟨count, by rwa [returns]⟩ enough

variable (stop) in
/-- Cycle walking on a permutation is injective on the smaller set. -/
theorem walk_injective (mapsTo : Set.MapsTo step domain domain)
    (injOn : Set.InjOn step domain) {fuel : ℕ} {start start' result : α}
    (inDomain : start ∈ domain) (inDomain' : start' ∈ domain)
    (startStops : stop start) (startStops' : stop start')
    (found : walk step stop fuel start = some result)
    (found' : walk step stop fuel start' = some result) : start = start' := by
  have cancel {count gap : ℕ} {x y : α} (xIn : x ∈ domain) (yIn : y ∈ domain)
      (yStops : stop y)
      (notBefore : ∀ earlier < count + gap, ¬stop (step^[earlier + 1] x))
      (equal : step^[count + gap + 1] x = step^[count + 1] y) : x = y := by
    have merged : step^[gap] x = y := by
      apply injOn.iterate mapsTo (count + 1) (mapsTo.iterate gap xIn) yIn
      rw [← Function.iterate_add_apply, ← equal]
      congr 1
      omega
    rcases gap with _ | gap
    · simpa using merged
    · exact absurd (merged ▸ yStops) (notBefore gap (by omega))
  obtain ⟨count, -, reached, -, notBefore⟩ := walk_eq_some_iff.mp found
  obtain ⟨count', -, reached', -, notBefore'⟩ := walk_eq_some_iff.mp found'
  rcases le_total count' count with le | le
  · obtain ⟨gap, rfl⟩ := Nat.exists_eq_add_of_le le
    exact cancel inDomain inDomain' startStops' notBefore
      (reached.trans reached'.symm)
  · obtain ⟨gap, rfl⟩ := Nat.exists_eq_add_of_le le
    exact (cancel inDomain' inDomain startStops notBefore'
      (reached'.trans reached.symm)).symm

end CycleWalk

namespace FeistelNetwork

/-- A pair of digits below the base. -/
def Digits (base : ℕ) : Set (ℕ × ℕ) :=
  {block | block.1 < base ∧ block.2 < base}

/-- One round: swap the digits and add a function of the old right digit. -/
def round (base : ℕ) (block : ℕ × ℕ) (key : ℕ → ℕ) : ℕ × ℕ :=
  (block.2, (block.1 + key block.2) % base)

/-- The rounds of a network with these keys. -/
def rounds (base : ℕ) (keys : List (ℕ → ℕ)) (block : ℕ × ℕ) : ℕ × ℕ :=
  keys.foldl (round base) block

/-- The two digits of a number, and the number they stand for. -/
def split (base value : ℕ) : ℕ × ℕ :=
  (value / base, value % base)

/-- The number with the two digits. -/
def join (base : ℕ) (block : ℕ × ℕ) : ℕ :=
  block.1 * base + block.2

/-- The network as a map on numbers. -/
def permute (base : ℕ) (keys : List (ℕ → ℕ)) (value : ℕ) : ℕ :=
  join base (rounds base keys (split base value))

theorem round_mapsTo (base : ℕ) (key : ℕ → ℕ) :
    Set.MapsTo (round base · key) (Digits base) (Digits base) := by
  rintro ⟨left, right⟩ ⟨leftLt, rightLt⟩
  exact ⟨rightLt, Nat.mod_lt _ (Nat.zero_lt_of_lt leftLt)⟩

theorem round_injOn (base : ℕ) (key : ℕ → ℕ) :
    Set.InjOn (round base · key) (Digits base) := by
  rintro ⟨left, right⟩ ⟨leftLt, -⟩ ⟨left', right'⟩ ⟨leftLt', -⟩ equal
  simp only [round, Prod.mk.injEq] at equal
  obtain ⟨rfl, sumEq⟩ := equal
  have leftEq : left % base = left' % base :=
    Nat.ModEq.add_right_cancel' _ sumEq
  rw [Nat.mod_eq_of_lt leftLt, Nat.mod_eq_of_lt leftLt'] at leftEq
  simpa using leftEq

theorem rounds_mapsTo (base : ℕ) (keys : List (ℕ → ℕ)) :
    Set.MapsTo (rounds base keys) (Digits base) (Digits base) := by
  induction keys with
  | nil => exact Set.mapsTo_id _
  | cons key keys inductionHypothesis =>
    exact inductionHypothesis.comp (round_mapsTo base key)

theorem rounds_injOn (base : ℕ) (keys : List (ℕ → ℕ)) :
    Set.InjOn (rounds base keys) (Digits base) := by
  induction keys with
  | nil => exact Set.injOn_id _
  | cons key keys inductionHypothesis =>
    exact inductionHypothesis.comp (round_injOn base key)
      (round_mapsTo base key)

theorem split_mapsTo (base : ℕ) :
    Set.MapsTo (split base) (Set.Iio (base * base)) (Digits base) := by
  intro value valueLt
  have basePos : 0 < base := by
    rcases Nat.eq_zero_or_pos base with rfl | positive
    · exact absurd valueLt (Nat.not_lt_zero _)
    · exact positive
  exact ⟨Nat.div_lt_of_lt_mul valueLt, Nat.mod_lt _ basePos⟩

theorem join_split (base value : ℕ) : join base (split base value) = value :=
  Nat.div_add_mod' value base

theorem split_join {base : ℕ} {block : ℕ × ℕ}
    (digits : block ∈ Digits base) : split base (join base block) = block := by
  obtain ⟨left, right⟩ := block
  obtain ⟨leftLt, rightLt⟩ := digits
  have basePos : 0 < base := Nat.zero_lt_of_lt leftLt
  simp only [split, join, Prod.mk.injEq]
  constructor
  · rw [mul_comm, Nat.mul_add_div basePos, Nat.div_eq_of_lt rightLt, add_zero]
  · rw [mul_comm, Nat.mul_add_mod, Nat.mod_eq_of_lt rightLt]

theorem join_lt {base : ℕ} {block : ℕ × ℕ} (digits : block ∈ Digits base) :
    join base block < base * base := by
  obtain ⟨left, right⟩ := block
  obtain ⟨leftLt, rightLt⟩ := digits
  calc
    left * base + right < left * base + base := by
      simpa using rightLt
    _ = (left + 1) * base := by ring
    _ ≤ base * base := Nat.mul_le_mul_right base leftLt

theorem permute_mapsTo (base : ℕ) (keys : List (ℕ → ℕ)) :
    Set.MapsTo (permute base keys) (Set.Iio (base * base))
      (Set.Iio (base * base)) := by
  intro value valueLt
  exact join_lt (rounds_mapsTo base keys (split_mapsTo base valueLt))

/-- Whatever the round keys, the network permutes the numbers below the square
of its base. -/
theorem permute_injOn (base : ℕ) (keys : List (ℕ → ℕ)) :
    Set.InjOn (permute base keys) (Set.Iio (base * base)) := by
  intro value valueLt value' valueLt' equal
  have digits := rounds_mapsTo base keys (split_mapsTo base valueLt)
  have digits' := rounds_mapsTo base keys (split_mapsTo base valueLt')
  have blocks := congrArg (split base) equal
  simp only [permute, split_join digits, split_join digits'] at blocks
  have splits := rounds_injOn base keys (split_mapsTo base valueLt)
    (split_mapsTo base valueLt') blocks
  rw [← join_split base value, splits, join_split]

end FeistelNetwork
