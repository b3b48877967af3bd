import VirtualPeople.Binary64.Signs
import VirtualPeople.Kotlin.RolloutOrder
import VirtualPeople.Selector.Transparency

/-!
# The selectors of the two languages agree

Two servers, one in each language, with the same model line and the same
rollouts, answer alike, whatever calls each of them has had before.  They
measure an adoption in seconds and in days, sort by another algorithm, read
dates at another time and keep other caches.
-/

namespace VirtualPeople.Kotlin

open Binary64 (ofInt Represents)
open Selector (Date LawfulTimeExternals ModelLine ModelReleasePercentile
  ModelRollout RolloutSort TimeExternals timeUsecToCivilDay)
open Selector.TimeExternals (toDoubleSeconds)

/-! ## Entries that adopt alike -/

/-- A double from zero to one. -/
def IsScaled (float : Float) : Prop :=
  ∃ x ≤ 1, Represents float x

/-- A fingerprint is scaled to a double from zero to one. -/
theorem isScaled_reducedEventId (X : Externals) (modelRelease eventId : String) :
    IsScaled (Selector.VidModelSelector.reducedEventId X modelRelease
      eventId) := by
  have maxEq : ofInt Int64.maxValue.toInt = ofInt ((2 ^ 63 : ℕ) : ℤ) := rfl
  unfold Selector.VidModelSelector.reducedEventId
  simp only [maxEq]
  have lower := (X.fingerprint (modelRelease ++ eventId)).toInt64.le_toInt
  have upper := (X.fingerprint (modelRelease ++ eventId)).toInt64.toInt_lt
  exact Binary64.exists_represents_abs_div (by omega) (by norm_num)
    (by norm_num)

/-- Entries for one release, whose percentiles are above the same scaled
fingerprints. -/
structure SameEntry (entry entry' : ModelReleasePercentile) : Prop where
  key : entry.modelReleaseResourceKey = entry'.modelReleaseResourceKey
  above : ∀ float : Float, IsScaled float.abs →
    (float.abs < entry.endPercentile ↔ float.abs < entry'.endPercentile)

/-- Entries for the same releases that adopt alike select the same one. -/
theorem selectModelRelease_agree (X : Externals) (eventId : String)
    {percentages percentages' : List ModelReleasePercentile}
    (same : List.Forall₂ SameEntry percentages percentages')
    (modelRelease : String) :
    Selector.VidModelSelector.selectModelRelease X eventId percentages
        modelRelease =
      Selector.VidModelSelector.selectModelRelease X eventId percentages'
        modelRelease := by
  unfold Selector.VidModelSelector.selectModelRelease
  induction same generalizing modelRelease with
  | nil => rfl
  | @cons entry entry' rest rest' head _ inductionHypothesis =>
    have above := head.above _
      (isScaled_reducedEventId X entry'.modelReleaseResourceKey eventId)
    rw [List.foldl_cons, List.foldl_cons, head.key, inductionHypothesis]
    congr 1
    exact if_congr above rfl rfl

/-- A number of seconds over another is the same share as the numbers of days
are, also where the first one is negative. -/
theorem lt_seconds_iff {days period : ℤ} (le : days ≤ 2 ^ 31)
    (periodPos : 0 < period) (periodLe : period ≤ 2 ^ 31) (float : Float) :
    float.abs < ofInt (days * 86400) / ofInt (period * 86400) ↔
      float.abs < ofInt days / ofInt period := by
  obtain ⟨d, rfl⟩ := Int.eq_ofNat_of_zero_le periodPos.le
  rcases lt_or_ge days 0 with negative | nonneg
  · have scaled : ((d : ℤ) * 86400) = ((d * 86400 : ℕ) : ℤ) := by push_cast; rfl
    rw [scaled]
    exact iff_of_false (Binary64.not_abs_lt_ofInt_div (by omega))
      (Binary64.not_abs_lt_ofInt_div negative)
  · obtain ⟨n, rfl⟩ := Int.eq_ofNat_of_zero_le nonneg
    have same := @Binary64.lt_ofInt_div_scaled_iff n d 86400 (by omega)
      (by omega) (by omega) (by omega) float.abs
    push_cast at same
    exact same

/-- Eleven thousand years are more than any period. -/
theorem lt_days_div {period : ℕ} (positive : 0 < period)
    (le : period ≤ 3700000) {float : Float} (scaled : IsScaled float) :
    float < ofInt ((2 ^ 22 : ℕ) : ℤ) / ofInt period := by
  obtain ⟨x, xLe, represents⟩ := scaled
  have quotient := Binary64.represents_ofInt_div_exact positive
    (by norm_num : 2 ^ 22 ≤ 2 ^ 53) (by omega : period ≤ 2 ^ 53)
  rw [represents.lt_iff quotient]
  have representable : Binary64.Representable (9 / 8 : ℝ) :=
    ⟨9, -3, by norm_num, by norm_num, by norm_num⟩
  have large : (9 / 8 : ℝ) ≤ ((2 ^ 22 : ℕ) : ℝ) / period := by
    have periodLe : (period : ℝ) ≤ 3700000 := by exact_mod_cast le
    rw [le_div_iff₀ (by exact_mod_cast positive)]
    norm_num
    linarith
  have := representable.le_roundMagnitude (by norm_num) large
  linarith

/-! ## Ids and times -/

/-- Where the input has no profile, an `event_id` in it has an id. -/
def HasEventId {InputFields : Type} (labelerInput : LabelerInput InputFields) :
    Prop :=
  labelerInput.profileInfo = none →
    ∀ eventId ∈ labelerInput.eventId, eventId.id ≠ none

theorem getEventId_agree {InputFields : Type}
    {labelerInput : LabelerInput InputFields} (hasId : HasEventId labelerInput) :
    Lockstep (· = ·) (Selector.VidModelSelector.getEventId labelerInput)
      (VidModelSelector.getEventId labelerInput) := by
  cases idsEq : VidModelSelector.userIds labelerInput with
  | cons userId rest =>
    have first : (VidModelSelector.userIds labelerInput).head? = some userId := by
      rw [idsEq, List.head?_cons]
    rw [VidModelSelector.cc_getEventId_of_userId first,
      VidModelSelector.getEventId_of_userId first]
    exact .ok rfl
  | nil =>
    rw [VidModelSelector.cc_getEventId_of_nil idsEq,
      VidModelSelector.getEventId_of_nil idsEq]
    by_cases noProfile : labelerInput.profileInfo = none
    · unfold VidModelSelector.eventIdId
      cases idEq : labelerInput.eventId with
      | none =>
        rw [if_neg (by simp), if_pos noProfile]
        exact .errors _ _
      | some eventId =>
        obtain ⟨id, isSome⟩ :=
          Option.ne_none_iff_exists'.mp (hasId noProfile eventId idEq)
        rw [if_pos ⟨noProfile, by simp⟩, if_pos noProfile, Option.bind_some,
          isSome]
        exact .ok rfl
    · rw [if_neg fun both => noProfile both.1, if_neg noProfile]
      exact .errors _ _

/-- Both selectors take the event for active or not, and on the same day. -/
structure SameTime (modelLine : ModelLine) (timestampUsec : Int64) : Prop where
  active : VidModelSelector.InRange modelLine timestampUsec.toInt ↔
    VidModelSelector.InMovedRange modelLine timestampUsec.toInt
  date : VidModelSelector.InRange modelLine timestampUsec.toInt →
    ¬VidModelSelector.IsJustBeforeMidnight timestampUsec.toInt

/-- Bounds in whole seconds after the epoch are the same for both. -/
theorem SameTime.of_wholeSeconds {modelLine : ModelLine}
    {activeStartTime activeEndTime : Selector.Timestamp}
    (startEq : modelLine.activeStartTime = some activeStartTime)
    (endEq : modelLine.activeEndTime = some activeEndTime)
    (wholeStart : activeStartTime.nanos = 0) (wholeEnd : activeEndTime.nanos = 0)
    (startPositive : 0 < activeStartTime.seconds.toInt)
    (endPositive : 0 < activeEndTime.seconds.toInt) (timestampUsec : Int64) :
    SameTime modelLine timestampUsec where
  active := by
    unfold VidModelSelector.InRange VidModelSelector.InMovedRange
    rw [startEq, endEq, Option.getD_some, Option.getD_some,
      VidModelSelector.firstMicrosecond_of_wholeSeconds wholeStart startPositive,
      VidModelSelector.firstMicrosecond_of_wholeSeconds wholeEnd endPositive]
    simp
  date inRange beforeMidnight := by
    have afterStart := inRange.1
    have beforeEpoch := beforeMidnight.1
    rw [startEq, Option.getD_some] at afterStart
    unfold Selector.Timestamp.microseconds at afterStart
    rw [wholeStart, Int32.toInt_zero, Int.zero_tdiv] at afterStart
    omega

/-- The loops over entries that adopt alike end with one release. -/
theorem chooseRelease_agree (X : Externals) {InputFields : Type}
    {labelerInput : LabelerInput InputFields} (hasId : HasEventId labelerInput)
    {percentages percentages' : List ModelReleasePercentile}
    (same : List.Forall₂ SameEntry percentages percentages') :
    Lockstep (· = ·)
      (Selector.VidModelSelector.releaseOf X labelerInput (some percentages))
      (VidModelSelector.chooseRelease X labelerInput percentages') := by
  have sameSelection := fun eventId : String =>
    selectModelRelease_agree X eventId same
  cases same with
  | nil => exact .ok rfl
  | cons head tail =>
    refine .bind (getEventId_agree hasId) fun eventId eventId' sameId => ?_
    rw [sameId, sameSelection, head.key]
    exact .ok rfl

section Times

variable {K : SelectorExternals} [TimeExternals]

/-! ## Rollouts whose dates exist -/

/-- A date of the calendar with a year of at most four digits, which both
languages take for the same day. -/
structure DateExists (K : SelectorExternals) (date : Date) : Prop where
  yearPos : 1 ≤ date.year.toInt
  yearLe : date.year.toInt ≤ 9999
  monthPos : 1 ≤ date.month.toInt
  monthLe : date.month.toInt ≤ 12
  dayPos : 1 ≤ date.day.toInt
  dayLe : date.day.toInt ≤ 31
  sameDay : K.toLocalDate date = .ok date.toCivilDay

/-- The dates of a rollout exist, and it does not end before it starts. -/
structure WellDated (K : SelectorExternals) (rollout : ModelRollout) : Prop where
  period :
    match rollout.rolloutDeployPeriod with
    | .gradualRolloutPeriod startDate endDate =>
      DateExists K startDate ∧ DateExists K endDate ∧
        startDate.toCivilDay ≤ endDate.toCivilDay
    | .instantRolloutDate date => DateExists K date
    | .notSet => False
  freezeDate : ∀ date ∈ rollout.rolloutFreezeDate, DateExists K date

section Rollouts

variable [LawfulTimeExternals]

/-- The days of years of at most four digits. -/
theorem DateExists.bounds {date : Date} (dateExists : DateExists K date) :
    -719200 ≤ date.toCivilDay ∧ date.toCivilDay ≤ 2933000 := by
  obtain ⟨_, _, _, _, _, _, -⟩ := dateExists
  unfold Date.toCivilDay
  rw [LawfulTimeExternals.civilDay_eq]
  unfold Selector.gregorianDay
  simp only
  split_ifs <;> omega

namespace WellDated

variable {rollout : ModelRollout}

theorem startDate (wellDated : WellDated K rollout) :
    rolloutPeriodStartDate K rollout = .ok rollout.rolloutPeriodStartDate ∧
      -719200 ≤ rollout.rolloutPeriodStartDate ∧
        rollout.rolloutPeriodStartDate ≤ 2933000 := by
  have period := wellDated.period
  unfold rolloutPeriodStartDate ModelRollout.rolloutPeriodStartDate
    ModelRollout.instantRolloutDate
  cases deploy : rollout.rolloutDeployPeriod with
  | gradualRolloutPeriod startDate endDate =>
    rw [deploy] at period
    exact ⟨period.1.sameDay, period.1.bounds⟩
  | instantRolloutDate date =>
    rw [deploy] at period
    exact ⟨DateExists.sameDay period, DateExists.bounds period⟩
  | notSet =>
    rw [deploy] at period
    exact period.elim

theorem endDate (wellDated : WellDated K rollout) :
    rolloutPeriodEndDate K rollout = .ok rollout.rolloutPeriodEndDate ∧
      rollout.rolloutPeriodStartDate ≤ rollout.rolloutPeriodEndDate ∧
        rollout.rolloutPeriodEndDate ≤ 2933000 := by
  have period := wellDated.period
  unfold rolloutPeriodEndDate ModelRollout.rolloutPeriodEndDate
    ModelRollout.rolloutPeriodStartDate ModelRollout.instantRolloutDate
  cases deploy : rollout.rolloutDeployPeriod with
  | gradualRolloutPeriod startDate endDate =>
    rw [deploy] at period
    exact ⟨period.2.1.sameDay, period.2.2, period.2.1.bounds.2⟩
  | instantRolloutDate date =>
    rw [deploy] at period
    exact ⟨DateExists.sameDay period, le_rfl, (DateExists.bounds period).2⟩
  | notSet =>
    rw [deploy] at period
    exact period.elim

/-- A freeze date that is not set is after every event in both languages. -/
theorem freezeDate_cases (wellDated : WellDated K rollout) {eventDateUtc : ℤ}
    (le : eventDateUtc ≤ 2 ^ 30) :
    ∃ freezeDate, rolloutFreezeDate K rollout = .ok freezeDate ∧
      (eventDateUtc ≥ freezeDate ↔ eventDateUtc ≥ rollout.freezeDate) ∧
      (eventDateUtc ≥ freezeDate → freezeDate = rollout.freezeDate ∧
        -719200 ≤ freezeDate ∧ freezeDate ≤ 2933000) := by
  unfold rolloutFreezeDate ModelRollout.freezeDate
  cases frozen : rollout.rolloutFreezeDate with
  | none =>
    have maxEq : TimeExternals.maxCivilDay = 3368767461170929733524 :=
      LawfulTimeExternals.maxCivilDay_eq.trans (by decide)
    have localMaxEq : localDateMax = 365241780471 := by decide
    refine ⟨localDateMax, rfl, ?_, fun after => ?_⟩
    · change eventDateUtc ≥ localDateMax ↔
        eventDateUtc ≥ TimeExternals.maxCivilDay
      rw [maxEq, localMaxEq]
      omega
    · rw [localMaxEq] at after
      omega
  | some date =>
    have dateExists := wellDated.freezeDate date frozen
    exact ⟨date.toCivilDay, dateExists.sameDay, .rfl,
      fun _ => ⟨rfl, dateExists.bounds⟩⟩

end WellDated

/-! ## Percentages -/

/-- The share of a period that both languages measure, in seconds and in days,
is above the same scaled fingerprints.  After eleven thousand years seconds
need not be exact any more, but then both shares are above one. -/
theorem lt_toDoubleSeconds_iff {days period : ℤ} (lower : -2 ^ 22 ≤ days)
    (upper : days ≤ 2 ^ 31) (periodPos : 0 < period)
    (periodLe : period ≤ 3700000) {float : Float}
    (scaled : IsScaled float.abs) :
    float.abs < toDoubleSeconds (days * 86400) /
        toDoubleSeconds (period * 86400) ↔
      float.abs < ofInt days / ofInt period := by
  have periodEq := LawfulTimeExternals.toDoubleSeconds_eq period (by omega)
    (by omega)
  rcases le_or_gt days (2 ^ 22) with exactly | later
  · rw [LawfulTimeExternals.toDoubleSeconds_eq days lower exactly, periodEq]
    exact lt_seconds_iff upper periodPos (by omega) float
  · obtain ⟨n, rfl⟩ := Int.eq_ofNat_of_zero_le (by omega : 0 ≤ days)
    obtain ⟨d, rfl⟩ := Int.eq_ofNat_of_zero_le periodPos.le
    have inDays := lt_days_div (by omega : 0 < d) (by omega) scaled
    have inSeconds := (@lt_seconds_iff ((2 ^ 22 : ℕ) : ℤ) d (by norm_num)
      (by omega) (by omega) float).mpr inDays
    refine iff_of_true ?_ ?_
    · refine Selector.lt_toDoubleSeconds_div_of_le
        (by omega : 2 ^ 22 ≤ n) (by omega) (by omega : 0 < d) (by omega) ?_
      rw [periodEq, LawfulTimeExternals.toDoubleSeconds_eq _ (by norm_num)
        (by norm_num)]
      exact inSeconds
    · refine (Binary64.representsSize_ofInt (by norm_num)).lt_div_of_le
        (Binary64.representsSize_ofInt (by omega))
        (Binary64.representsSize_ofInt (by omega))
        (Binary64.one_le_roundMagnitude_natCast (by omega)) ?_ inDays
      exact Binary64.roundMagnitude_mono (by norm_num)
        (by exact_mod_cast (by omega : 2 ^ 22 ≤ n))

/-- The percentages of a started rollout adopt alike. -/
theorem calculatePercentageAdoption_agree {rollout : ModelRollout}
    (wellDated : WellDated K rollout) {eventDateUtc : ℤ}
    (started : rollout.rolloutPeriodStartDate ≤ eventDateUtc)
    (upper : eventDateUtc ≤ 2 ^ 30) :
    ∃ percentage, calculatePercentageAdoption K eventDateUtc rollout =
        .ok percentage ∧
      SameEntry
        ⟨Selector.VidModelSelector.calculatePercentageAdoption eventDateUtc
          rollout, rollout.modelRelease⟩
        ⟨percentage, rollout.modelRelease⟩ := by
  obtain ⟨startEq, startGe, startLe⟩ := wellDated.startDate
  obtain ⟨endEq, ordered, endLe⟩ := wellDated.endDate
  obtain ⟨freezeDate, freezeEq, frozenIff, sameFreeze⟩ :=
    wellDated.freezeDate_cases upper
  unfold calculatePercentageAdoption
  rw [freezeEq, startEq, endEq]
  refine ⟨_, rfl, rfl, fun float scaled => ?_⟩
  unfold Selector.VidModelSelector.calculatePercentageAdoption
  simp only [Selector.VidModelSelector.getTimeDifferenceInSeconds, daysBetween,
    frozenIff]
  split_ifs with instant frozen
  · rfl
  · obtain ⟨freezeEq, freezeGe, freezeLe⟩ := sameFreeze (frozenIff.mpr frozen)
    rw [← freezeEq]
    exact lt_toDoubleSeconds_iff (by omega) (by omega) (by omega) (by omega)
      scaled
  · exact lt_toDoubleSeconds_iff (by omega) (by omega) (by omega) (by omega)
      scaled

end Rollouts

/-! ## Active rollouts -/

section Active

variable {rollouts : List ModelRollout}

/-- With one rollout a day at most there is one order by the start date. -/
theorem sort_eq (rolloutSort : RolloutSort) {sorted : List ModelRollout}
    (distinct : (rollouts.map (·.rolloutPeriodStartDate)).Nodup)
    (perm : sorted.Perm rollouts)
    (isSorted : sorted.Pairwise fun earlier later =>
      earlier.rolloutPeriodStartDate ≤ later.rolloutPeriodStartDate) :
    rolloutSort.sort rollouts = sorted := by
  have isSorted' : (rolloutSort.sort rollouts).Pairwise fun earlier later =>
      earlier.rolloutPeriodStartDate ≤ later.rolloutPeriodStartDate :=
    (rolloutSort.sorted rollouts).imp fun notLess => by
      simpa [Selector.compareModelRollouts] using notLess
  refine List.Perm.eq_of_pairwise ?_ isSorted' isSorted
    ((rolloutSort.perm rollouts).trans perm.symm)
  intro rollout rollout' member member' le ge
  exact List.inj_on_of_nodup_map distinct
    ((rolloutSort.perm rollouts).mem_iff.mp member) (perm.mem_iff.mp member')
    (le_antisymm le ge)

variable [LawfulTimeExternals]
  (wellDated : ∀ rollout ∈ rollouts, WellDated K rollout)
include wellDated

theorem mapM_datedRollout :
    rollouts.mapM (datedRollout K) = .ok (rollouts.map fun rollout =>
      (rollout.rolloutPeriodStartDate, rollout)) := by
  rw [mapM_eq_ok_iff, List.forall₂_map_right_iff, List.forall₂_same]
  intro rollout member
  exact datedRollout_eq_ok_iff.mpr ⟨(wellDated rollout member).startDate.1, rfl⟩

/-- Both sorts give the same list. -/
theorem sortedRollouts_agree (rolloutSort : RolloutSort)
    (distinct : (rollouts.map (·.rolloutPeriodStartDate)).Nodup)
    (modelLine : ModelLine) :
    (VidModelSelector.mk modelLine rollouts).sortedRollouts K =
      .ok (rolloutSort.sort rollouts) := by
  unfold VidModelSelector.sortedRollouts
  rw [mapM_datedRollout wellDated]
  have perm := StableSort.sortBy_perm Prod.fst (rollouts.map fun rollout =>
    (rollout.rolloutPeriodStartDate, rollout))
  have isSorted := StableSort.pairwise_sortBy Prod.fst
    (rollouts.map fun rollout => (rollout.rolloutPeriodStartDate, rollout))
  refine congrArg Except.ok (sort_eq rolloutSort distinct ?_ ?_).symm
  · have unsorted := perm.map Prod.snd
    rwa [List.map_map, Function.comp_def, List.map_id'] at unsorted
  · refine List.pairwise_map.mpr (isSorted.imp_of_mem ?_)
    intro earlier later member member' le
    obtain ⟨rollout, -, rfl⟩ := List.mem_map.mp (perm.mem_iff.mp member)
    obtain ⟨rollout', -, rfl⟩ := List.mem_map.mp (perm.mem_iff.mp member')
    exact le

/-- The loops over the rollouts stop at the same one. -/
theorem collectActive_agree (eventDateUtc : ℤ) :
    collectActive K eventDateUtc rollouts =
      .ok (Selector.VidModelSelector.collectActive id eventDateUtc
        rollouts) := by
  induction rollouts with
  | nil => rfl
  | cons rollout rest inductionHypothesis =>
    have ⟨head, tail⟩ := List.forall_mem_cons.mp wellDated
    unfold collectActive Selector.VidModelSelector.collectActive
    rw [head.startDate.1, head.endDate.1, inductionHypothesis tail]
    simp only [bind, Except.bind, id]
    split_ifs <;> rfl

theorem retrieveActiveRollouts_agree (rolloutSort : RolloutSort)
    (distinct : (rollouts.map (·.rolloutPeriodStartDate)).Nodup)
    (modelLine : ModelLine) (eventDateUtc : ℤ) :
    (VidModelSelector.mk modelLine rollouts).retrieveActiveRollouts K
        eventDateUtc =
      .ok ((Selector.VidModelSelector.mk modelLine
        rollouts).retrieveActiveRollouts rolloutSort eventDateUtc) := by
  have sortedDated : ∀ rollout ∈ rolloutSort.sort rollouts,
      WellDated K rollout := fun rollout member =>
    wellDated rollout ((rolloutSort.perm rollouts).mem_iff.mp member)
  unfold VidModelSelector.retrieveActiveRollouts
  rw [sortedRollouts_agree wellDated rolloutSort distinct modelLine]
  unfold Selector.VidModelSelector.retrieveActiveRollouts
    Selector.VidModelSelector.activeEntries
    Selector.VidModelSelector.sortedRollouts
  generalize rolloutSort.sort rollouts = sorted at sortedDated
  cases sorted with
  | nil => rfl
  | cons first rest =>
    have ⟨head, _⟩ := List.forall_mem_cons.mp sortedDated
    have collected := @collectActive_agree K _ (first :: rest).reverse _
      (fun rollout member => sortedDated rollout (List.mem_reverse.mp member))
      eventDateUtc
    change (rolloutPeriodStartDate K first >>= _) = _
    rw [head.startDate.1]
    change (if _ then _ else _) = _
    simp only [id]
    split_ifs with early
    · rfl
    · change (collectActive K eventDateUtc (first :: rest).reverse >>= _) = _
      rw [collected]
      rfl

/-- An active rollout has started. -/
theorem started_of_mem {rolloutSort : RolloutSort} {modelLine : ModelLine}
    {eventDateUtc : ℤ} {rollout : ModelRollout}
    (member : rollout ∈ (Selector.VidModelSelector.mk modelLine
      rollouts).retrieveActiveRollouts rolloutSort eventDateUtc) :
    rollout ∈ rollouts ∧ rollout.rolloutPeriodStartDate ≤ eventDateUtc := by
  have collected {entries : List ModelRollout}
      (known : ∀ entry ∈ entries, entry ∈ rollouts)
      (inCollected : rollout ∈ Selector.VidModelSelector.collectActive id
        eventDateUtc entries) :
      rollout ∈ rollouts ∧ rollout.rolloutPeriodStartDate ≤ eventDateUtc := by
    induction entries with
    | nil => exact absurd inCollected List.not_mem_nil
    | cons entry rest inductionHypothesis =>
      have ⟨head, tail⟩ := List.forall_mem_cons.mp known
      have ordered := (wellDated entry head).endDate.2.1
      unfold Selector.VidModelSelector.collectActive at inCollected
      simp only [id] at inCollected
      split_ifs at inCollected with ended notFrozen started
      · rw [List.mem_singleton.mp inCollected]
        exact ⟨head, ordered.trans ended⟩
      · rcases List.mem_cons.mp inCollected with rfl | inRest
        · exact ⟨head, ordered.trans ended⟩
        · exact inductionHypothesis tail inRest
      · rcases List.mem_cons.mp inCollected with rfl | inRest
        · exact ⟨head, started⟩
        · exact inductionHypothesis tail inRest
      · exact inductionHypothesis tail inCollected
  unfold Selector.VidModelSelector.retrieveActiveRollouts
    Selector.VidModelSelector.activeEntries
    Selector.VidModelSelector.sortedRollouts at member
  simp only at member
  have sortedIff (entry : ModelRollout) :
      entry ∈ rolloutSort.sort rollouts ↔ entry ∈ rollouts :=
    (rolloutSort.perm rollouts).mem_iff
  generalize rolloutSort.sort rollouts = sorted at member sortedIff
  cases sorted with
  | nil => exact absurd member List.not_mem_nil
  | cons first rest =>
    simp only at member
    split_ifs at member
    · exact absurd member List.not_mem_nil
    · refine collected (fun entry inReversed => ?_) (List.mem_reverse.mp member)
      exact (sortedIff entry).mp (List.mem_reverse.mp inReversed)

/-- The percentages of a day are of the same releases, and adopt alike. -/
theorem calculatePercentages_agree (rolloutSort : RolloutSort)
    (distinct : (rollouts.map (·.rolloutPeriodStartDate)).Nodup)
    (modelLine : ModelLine) {eventDateUtc : ℤ}
    (upper : eventDateUtc ≤ 2 ^ 30) :
    ∃ percentages, (VidModelSelector.mk modelLine rollouts).calculatePercentages
        K eventDateUtc = .ok percentages ∧
      List.Forall₂ SameEntry
        ((Selector.VidModelSelector.mk modelLine rollouts).calculatePercentages
          rolloutSort eventDateUtc) percentages := by
  unfold VidModelSelector.calculatePercentages
    Selector.VidModelSelector.calculatePercentages
  rw [retrieveActiveRollouts_agree wellDated rolloutSort distinct]
  have activeDated (rollout : ModelRollout)
      (member : rollout ∈ (Selector.VidModelSelector.mk modelLine
        rollouts).retrieveActiveRollouts rolloutSort eventDateUtc) :
      WellDated K rollout ∧ rollout.rolloutPeriodStartDate ≤ eventDateUtc := by
    obtain ⟨known, started⟩ := started_of_mem wellDated member
    exact ⟨wellDated rollout known, started⟩
  generalize (Selector.VidModelSelector.mk modelLine
    rollouts).retrieveActiveRollouts rolloutSort eventDateUtc = active
      at activeDated
  simp only [bind, Except.bind]
  induction active with
  | nil => exact ⟨[], rfl, .nil⟩
  | cons rollout rest inductionHypothesis =>
    have ⟨head, tail⟩ := List.forall_mem_cons.mp activeDated
    obtain ⟨percentage, percentageEq, same⟩ :=
      calculatePercentageAdoption_agree head.1 head.2 upper
    obtain ⟨percentages, percentagesEq, rest'⟩ := inductionHypothesis tail
    refine ⟨_, ?_, .cons same rest'⟩
    rw [List.mapM_cons, percentageEq]
    simp only [bind, Except.bind] at percentagesEq ⊢
    rw [percentagesEq]
    rfl

end Active

/-! ## Calls -/

section Calls

variable (X : Externals)

/-- A call of the C++ selector returns what it would without the cache. -/
theorem outcome_getModelRelease {rolloutSort : RolloutSort}
    {selector : Selector.VidModelSelector} {cache : Selector.LruCache}
    (reachable : selector.ReachableCache X rolloutSort cache)
    {InputFields : Type} (labelerInput : LabelerInput InputFields) :
    Step.outcome (selector.getModelRelease rolloutSort X labelerInput cache) =
      if selector.isActive labelerInput.timestampUsec then
        Selector.VidModelSelector.releaseOf X labelerInput
          (some (selector.calculatePercentages rolloutSort
            (timeUsecToCivilDay labelerInput.timestampUsec.toInt)))
      else .ok none := by
  rw [selector.getModelRelease_eq_read]
  unfold Selector.VidModelSelector.readPercentages
  split_ifs
  · obtain ⟨final, -, readEq⟩ := selector.readFromCache_run rolloutSort
      (Selector.VidModelSelector.eventDateUtc labelerInput)
      (reachable.holds X rolloutSort selector)
    rw [bind_assoc, Step.run_bind_of_ok _ readEq, pure_bind]
    exact Step.outcome_lift _ final
  · rfl

variable [LawfulTimeExternals]

/-- Timestamps of 64 bits are within three million years of the epoch. -/
theorem eventDay_le (timestampUsec : Int64) :
    timeUsecToCivilDay timestampUsec.toInt ≤ 2 ^ 30 := by
  have := timestampUsec.toInt_lt
  rw [Selector.timeUsecToCivilDay_eq]
  omega

variable {X}

/-- Selectors of the two languages over the same model line and rollouts
return the same release for an input, or both none or both a failure, whatever
calls each of them has answered before: if the dates of the rollouts exist, no
two rollouts start on one day, and the input has the same time and an id in
both languages. -/
theorem VidModelSelector.getModelRelease_agree {rolloutSort : RolloutSort}
    {modelLine : ModelLine} {rollouts : List ModelRollout}
    {selector : Selector.VidModelSelector} {selector' : VidModelSelector}
    (built : Selector.VidModelSelector.build modelLine rollouts = .ok selector)
    (built' : build K modelLine rollouts = .ok selector')
    (wellDated : ∀ rollout ∈ rollouts, WellDated K rollout)
    (distinct : (rollouts.map (·.rolloutPeriodStartDate)).Nodup)
    {cache : Selector.LruCache} {cache' : ReleaseCache}
    (reachable : selector.ReachableCache X rolloutSort cache)
    (reachable' : selector'.ReachableCache K X cache')
    {InputFields : Type} {labelerInput : LabelerInput InputFields}
    (sameTime : SameTime modelLine labelerInput.timestampUsec)
    (hasId : HasEventId labelerInput) (release : Option String) :
    Step.outcome (selector.getModelRelease rolloutSort X labelerInput cache) =
        .ok release ↔
      Step.outcome (selector'.getModelRelease K X labelerInput cache') =
        .ok release := by
  have selectorEq : selector = ⟨modelLine, rollouts⟩ := by
    unfold Selector.VidModelSelector.build at built
    simp only at built
    split_ifs at built
    exact (Except.ok.inj built).symm
  obtain rfl := build_eq_ok built'
  rw [outcome_getModelRelease X reachable,
    ((reachable'.agrees X).getModelRelease X labelerInput).1]
  subst selectorEq
  unfold directRelease
  have sameActive := sameTime.active
  rw [← isActive_iff ⟨modelLine, rollouts⟩, ← kotlin_isActive_iff] at sameActive
  by_cases active : isActive modelLine labelerInput.timestampUsec = true
  · have ccActive := sameActive.mpr active
    have sameDate := (eventDateUtc_eq_iff labelerInput.timestampUsec).mpr
      (sameTime.date ((isActive_iff ⟨modelLine, rollouts⟩ _).mp ccActive))
    obtain ⟨percentages, percentagesEq, same⟩ := calculatePercentages_agree
      wellDated rolloutSort distinct modelLine
      (eventDay_le labelerInput.timestampUsec)
    rw [if_pos ccActive, if_pos active, ← sameDate, percentagesEq]
    have chosen := chooseRelease_agree X hasId same
    exact chosen.eq_ok_iff (fun _ _ impossible => impossible) release
  · rw [if_neg active, if_neg fun ccActive => active (sameActive.mp ccActive)]
    rfl

end Calls

end Times

/-! ## A gradual rollout -/

section Example

attribute [local instance] Selector.documentedTimes

open VidModelSelector
open Selector.VidModelSelector (insertionRolloutSort thirdDayInput)

/-- A release for everyone, and one that is rolled out over two days but is
frozen after the first one. -/
def gradualRollouts : List ModelRollout :=
  [⟨"modelProviders/p1/modelSuites/s1/modelLines/l1/modelRollouts/r1",
      .instantRolloutDate ⟨1970, 1, 1⟩, none, "modelReleases/r1"⟩,
    ⟨"modelProviders/p1/modelSuites/s1/modelLines/l1/modelRollouts/r2",
      .gradualRolloutPeriod ⟨1970, 1, 2⟩ ⟨1970, 1, 4⟩, some ⟨1970, 1, 3⟩,
      "modelReleases/r2"⟩]

theorem dateExists_calendar {date : Date}
    (fields : 1 ≤ date.year.toInt ∧ date.year.toInt ≤ 9999 ∧
      1 ≤ date.month.toInt ∧ date.month.toInt ≤ 12 ∧
        1 ≤ date.day.toInt ∧ date.day.toInt ≤ 31)
    (inMonth : 1 ≤ date.month ∧ date.month ≤ 12 ∧ 1 ≤ date.day ∧
      date.toCivilDay <
        Selector.gregorianDay date.year.toInt (date.month.toInt + 1) 1) :
    DateExists calendarExternals date := by
  obtain ⟨yearPos, yearLe, monthPos, monthLe, dayPos, dayLe⟩ := fields
  exact ⟨yearPos, yearLe, monthPos, monthLe, dayPos, dayLe, if_pos inMonth⟩

theorem cc_build_januaryLine :
    Selector.VidModelSelector.build januaryLine gradualRollouts =
      .ok ⟨januaryLine, gradualRollouts⟩ := by
  have hasId : Selector.readModelLine januaryLine.name ≠ "" := by
    decide +kernel
  have parented : ¬(gradualRollouts.any fun rollout =>
      Selector.readModelLine rollout.name ≠
        Selector.readModelLine januaryLine.name) = true := by
    decide +kernel
  unfold Selector.VidModelSelector.build
  simp only
  rw [if_neg hasId, if_neg parented]
  rfl

/-- On the third day both selectors return the second release. -/
theorem VidModelSelector.getModelRelease_agree_thirdDay :
    Step.outcome ((Selector.VidModelSelector.mk januaryLine
        gradualRollouts).getModelRelease insertionRolloutSort
          Externals.constant thirdDayInput (.new Selector.kCacheSize)) =
        .ok (some "modelReleases/r2") ∧
      Step.outcome ((mk januaryLine gradualRollouts).getModelRelease
        calendarExternals Externals.constant thirdDayInput .empty) =
        .ok (some "modelReleases/r2") := by
  have wellDated : ∀ rollout ∈ gradualRollouts,
      WellDated calendarExternals rollout := by
    refine List.forall_mem_cons.mpr ⟨⟨dateExists_calendar (by decide) (by decide), nofun⟩,
      List.forall_mem_cons.mpr ⟨⟨⟨dateExists_calendar (by decide) (by decide),
        dateExists_calendar (by decide) (by decide), by decide⟩, ?_⟩, nofun⟩⟩
    intro date isDate
    rw [← Option.some.inj isDate]
    exact dateExists_calendar (by decide) (by decide)
  have sameTime : SameTime januaryLine thirdDayInput.timestampUsec :=
    ⟨iff_of_true (by decide) (by decide), fun _ => by decide⟩
  have hasId : HasEventId thirdDayInput := by
    intro _ eventId isId
    rw [← Option.some.inj isId]
    exact Option.some_ne_none _
  have released : Step.outcome ((mk januaryLine gradualRollouts).getModelRelease
      calendarExternals Externals.constant thirdDayInput .empty) =
        .ok (some "modelReleases/r2") :=
    toOption_eq_some_iff.mp (by decide +kernel)
  have agree := @getModelRelease_agree calendarExternals _
    Externals.constant _ insertionRolloutSort _ _ _ _ cc_build_januaryLine
    (build_januaryLine (by decide +kernel)) wellDated (by decide) _ _ .new .new
    _ _ sameTime hasId
  exact ⟨(agree _).mpr released, released⟩

end Example

end VirtualPeople.Kotlin
