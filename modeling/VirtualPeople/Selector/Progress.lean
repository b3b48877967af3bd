import VirtualPeople.Selector.Rollouts

/-!
# A rollout never moves an id back

With the date, the last completed rollout only moves on, more rollouts have
started, and no percentage of a started rollout shrinks.  The entry that sets
the result for an event id therefore never comes from an earlier rollout.
-/

namespace VirtualPeople.Selector

open TimeExternals (maxCivilDay toDoubleSeconds)

/-! ## Choices -/

/-- The last entry that passes a test is the one with the largest position. -/
theorem le_of_getLast?_filter {passes : ModelRollout × ℕ → Bool}
    {active : List (ModelRollout × ℕ)}
    (increasing : active.Pairwise fun earlier later => earlier.2 < later.2)
    {last other : ModelRollout × ℕ}
    (found : (active.filter passes).getLast? = some last)
    (member : other ∈ active) (passed : passes other = true) :
    other.2 ≤ last.2 := by
  have inFilter : other ∈ active.filter passes :=
    List.mem_filter.mpr ⟨member, passed⟩
  obtain ⟨before, split⟩ := List.getLast?_eq_some_iff.mp found
  have filtered := increasing.filter passes
  rw [split] at inFilter filtered
  rcases List.mem_append.mp inFilter with inBefore | isLast
  · exact ((List.pairwise_append.mp filtered).2.2 other inBefore last
      (by simp)).le
  · rw [List.mem_singleton.mp isLast]

theorem specifiedChoice_cases {α : Type} {passes : α → Bool} {active : List α}
    {chosen : α} (choice : specifiedChoice passes active = some chosen) :
    (active.filter passes).getLast? = some chosen ∨
      active.head? = some chosen := by
  unfold specifiedChoice at choice
  cases last : (active.filter passes).getLast? with
  | none => exact Or.inr (by simpa [last] using choice)
  | some adopting => exact Or.inl (by simpa [last] using choice)

theorem mem_of_specifiedChoice {α : Type} {passes : α → Bool}
    {active : List α} {chosen : α}
    (choice : specifiedChoice passes active = some chosen) :
    chosen ∈ active := by
  rcases specifiedChoice_cases choice with last | head
  · exact List.mem_of_mem_filter (List.mem_of_getLast? last)
  · exact List.mem_of_head? head

section Days

variable [TimeExternals]

/-! ## Percentages grow -/

section Percentages

variable [LawfulTimeExternals]

namespace ModelRollout

theorem rolloutPeriodStartDate_bounds (rollout : ModelRollout) :
    -2 ^ 41 ≤ rollout.rolloutPeriodStartDate ∧
      rollout.rolloutPeriodStartDate ≤ 2 ^ 41 := by
  unfold rolloutPeriodStartDate
  split <;> exact Date.toCivilDay_bounds _

theorem rolloutPeriodEndDate_bounds (rollout : ModelRollout) :
    -2 ^ 41 ≤ rollout.rolloutPeriodEndDate ∧
      rollout.rolloutPeriodEndDate ≤ 2 ^ 41 := by
  unfold rolloutPeriodEndDate
  split <;> exact Date.toCivilDay_bounds _

end ModelRollout

end Percentages

variable {eventDateUtc laterDateUtc : ℤ}

theorem percentageDate_mono (rollout : ModelRollout)
    (le : eventDateUtc ≤ laterDateUtc) :
    percentageDate eventDateUtc rollout ≤
      percentageDate laterDateUtc rollout := by
  unfold percentageDate
  split <;> omega

theorem percentageDate_le (rollout : ModelRollout) (eventDateUtc : ℤ) :
    percentageDate eventDateUtc rollout ≤ eventDateUtc := by
  unfold percentageDate
  split <;> omega

/-- A percentage stopped before its rollout starts is the same on every day
of the rollout. -/
theorem percentageDate_eq {rollout : ModelRollout}
    (started : rollout.rolloutPeriodStartDate ≤ eventDateUtc)
    (le : eventDateUtc ≤ laterDateUtc)
    (stopped : percentageDate eventDateUtc rollout <
      rollout.rolloutPeriodStartDate) :
    percentageDate eventDateUtc rollout =
      percentageDate laterDateUtc rollout := by
  unfold percentageDate at stopped ⊢
  split at stopped
  · omega
  · omega

/-- An event that a started rollout adopts stays adopted by it. -/
theorem adopts_mono [LawfulTimeExternals] {X : Externals} {eventId : String}
    {rollout : ModelRollout}
    (ordered : rollout.rolloutPeriodStartDate ≤ rollout.rolloutPeriodEndDate)
    (started : rollout.rolloutPeriodStartDate ≤ eventDateUtc)
    (le : eventDateUtc ≤ laterDateUtc) (bounded : laterDateUtc ≤ 2 ^ 41)
    (adopted : adopts X eventId eventDateUtc rollout = true) :
    adopts X eventId laterDateUtc rollout = true := by
  unfold adopts specifiedPercentage at adopted ⊢
  rw [decide_eq_true_eq] at adopted ⊢
  simp only at adopted ⊢
  split_ifs at adopted ⊢ with instant
  · exact adopted
  · rcases lt_or_ge (percentageDate eventDateUtc rollout)
      rollout.rolloutPeriodStartDate with stopped | running
    · rwa [← percentageDate_eq started le stopped]
    · have grows := percentageDate_mono rollout le
      have laterLe := percentageDate_le rollout laterDateUtc
      have startBounds := rollout.rolloutPeriodStartDate_bounds
      have endBounds := rollout.rolloutPeriodEndDate_bounds
      obtain ⟨elapsed, elapsedEq⟩ := Int.eq_ofNat_of_zero_le (a :=
        percentageDate eventDateUtc rollout -
          rollout.rolloutPeriodStartDate) (by omega)
      obtain ⟨later, laterEq⟩ := Int.eq_ofNat_of_zero_le (a :=
        percentageDate laterDateUtc rollout -
          rollout.rolloutPeriodStartDate) (by omega)
      obtain ⟨period, periodEq⟩ := Int.eq_ofNat_of_zero_le (a :=
        rollout.rolloutPeriodEndDate -
          rollout.rolloutPeriodStartDate) (by omega)
      rw [elapsedEq, periodEq] at adopted
      rw [laterEq, periodEq]
      exact lt_toDoubleSeconds_div_of_le (by omega) (by omega) (by omega)
        (by omega) adopted

/-! ## Positions move on -/

section Positions

variable {entries : List (ModelRollout × ℕ)}

theorem lastCompleted_mono (le : eventDateUtc ≤ laterDateUtc) :
    lastCompleted Prod.fst eventDateUtc entries ≤
      lastCompleted Prod.fst laterDateUtc entries := by
  refine Nat.findGreatest_mono_left ?_ _
  rintro position ⟨entry, found, ended, notFrozen⟩
  exact ⟨entry, found, ended.trans le, notFrozen⟩

/-- Each entry of the list carries its own position. -/
def Positioned (entries : List (ModelRollout × ℕ)) : Prop :=
  ∀ (position : ℕ) (entry : ModelRollout × ℕ),
    entries[position]? = some entry → entry.2 = position

theorem mem_specifiedActive_iff (positioned : Positioned entries)
    {entry : ModelRollout × ℕ} :
    entry ∈ specifiedActive Prod.fst eventDateUtc entries ↔
      entry ∈ entries ∧
        lastCompleted Prod.fst eventDateUtc entries ≤ entry.2 ∧
          entry.1.rolloutPeriodStartDate ≤ eventDateUtc := by
  rw [specifiedActive, List.mem_filter, List.mem_drop_iff_getElem,
    decide_eq_true_eq, ← and_assoc]
  refine and_congr_left fun _ => ?_
  constructor
  · rintro ⟨offset, inside, rfl⟩
    have inside' : lastCompleted Prod.fst eventDateUtc entries + offset <
        entries.length := by omega
    refine ⟨List.getElem_mem _, ?_⟩
    rw [positioned _ _ (List.getElem?_eq_getElem inside')]
    omega
  · rintro ⟨member, le⟩
    obtain ⟨position, inside, found⟩ := List.getElem_of_mem member
    have positionEq := positioned position entry
      (by rw [List.getElem?_eq_getElem inside, found])
    refine ⟨position - lastCompleted Prod.fst eventDateUtc entries, by omega, ?_⟩
    have sumEq : lastCompleted Prod.fst eventDateUtc entries + (position -
        lastCompleted Prod.fst eventDateUtc entries) = position := by omega
    simp only [sumEq, found]

/-- A default choice is at the last completed position. -/
theorem position_of_head? (positioned : Positioned entries)
    (ordered : ∀ entry ∈ entries,
      entry.1.rolloutPeriodStartDate ≤ entry.1.rolloutPeriodEndDate)
    (sorted : entries.Pairwise fun earlier later =>
      earlier.1.rolloutPeriodStartDate ≤ later.1.rolloutPeriodStartDate)
    {chosen : ModelRollout × ℕ}
    (head : (specifiedActive Prod.fst eventDateUtc entries).head? =
      some chosen) :
    chosen.2 = lastCompleted Prod.fst eventDateUtc entries := by
  cases entries with
  | nil => simp [specifiedActive] at head
  | cons first rest =>
    rcases lt_or_ge eventDateUtc first.1.rolloutPeriodStartDate with
      early | started
    · rw [specifiedActive_eq_nil sorted early] at head
      contradiction
    · obtain ⟨entry, found, headEq⟩ := head?_specifiedActive ordered started
      rw [head, Option.some_inj] at headEq
      rw [headEq]
      exact positioned _ _ found

/-- The specified choice only moves on. -/
theorem specifiedChoice_mono [LawfulTimeExternals] {X : Externals} {eventId : String}
    (positioned : Positioned entries)
    (increasing : entries.Pairwise fun earlier later => earlier.2 < later.2)
    (ordered : ∀ entry ∈ entries,
      entry.1.rolloutPeriodStartDate ≤ entry.1.rolloutPeriodEndDate)
    (sorted : entries.Pairwise fun earlier later =>
      earlier.1.rolloutPeriodStartDate ≤ later.1.rolloutPeriodStartDate)
    (le : eventDateUtc ≤ laterDateUtc) (bounded : laterDateUtc ≤ 2 ^ 41)
    {chosen later : ModelRollout × ℕ}
    (choice : specifiedChoice (fun entry => adopts X eventId eventDateUtc entry.1)
      (specifiedActive Prod.fst eventDateUtc entries) = some chosen)
    (laterChoice : specifiedChoice
      (fun entry => adopts X eventId laterDateUtc entry.1)
      (specifiedActive Prod.fst laterDateUtc entries) = some later) :
    chosen.2 ≤ later.2 := by
  obtain ⟨member, -, started⟩ :=
    (mem_specifiedActive_iff positioned).mp (mem_of_specifiedChoice choice)
  obtain ⟨-, laterGe, -⟩ := (mem_specifiedActive_iff positioned).mp
    (mem_of_specifiedChoice laterChoice)
  rcases lt_or_ge chosen.2 (lastCompleted Prod.fst laterDateUtc entries) with
    dropped | kept
  · exact (dropped.trans_le laterGe).le
  · rcases specifiedChoice_cases choice with adopting | default
    · -- The rollout that adopted the event is still active, and adopts it.
      have adopted := (List.mem_filter.mp (List.mem_of_getLast? adopting)).2
      have stillActive := (mem_specifiedActive_iff positioned).mpr
        ⟨member, kept, started.trans le⟩
      have stillAdopts : adopts X eventId laterDateUtc chosen.1 = true :=
        adopts_mono (ordered chosen member) started le bounded adopted
      have laterIncreasing : (specifiedActive Prod.fst laterDateUtc
          entries).Pairwise fun earlier later => earlier.2 < later.2 :=
        (increasing.sublist (List.drop_sublist _ _)).filter _
      unfold specifiedChoice at laterChoice
      cases lastEq : ((specifiedActive Prod.fst laterDateUtc entries).filter
          fun entry => adopts X eventId laterDateUtc entry.1).getLast? with
      | none =>
        rw [List.getLast?_eq_none_iff, List.filter_eq_nil_iff] at lastEq
        exact absurd stillAdopts (lastEq chosen stillActive)
      | some last =>
        rw [lastEq, Option.some_or, Option.some_inj] at laterChoice
        rw [laterChoice] at lastEq
        exact le_of_getLast?_filter laterIncreasing lastEq stillActive
          stillAdopts
    · rw [position_of_head? positioned ordered sorted default]
      exact (lastCompleted_mono le).trans laterGe

end Positions

end Days

/-! ## Two calls -/

namespace VidModelSelector

section Calls

variable [TimeExternals] {eventDateUtc : ℤ} (X : Externals)
  (rolloutSort : RolloutSort) {selector : VidModelSelector}

theorem positioned_positionedRollouts (selector : VidModelSelector) :
    Positioned (selector.positionedRollouts rolloutSort) := by
  intro position entry found
  rw [positionedRollouts, List.getElem?_zipIdx] at found
  obtain ⟨rollout, -, rfl⟩ := Option.map_eq_some_iff.mp found
  simp

/-- The entry that sets the result comes from the rollout at its position. -/
theorem getElem?_of_settingEntry (ordered : Ordered selector) {eventId : String}
    (real : eventDateUtc < maxCivilDay) {chosen : ModelRollout × ℕ}
    (setting : settingEntry X eventId eventDateUtc
      (selector.sortedRollouts rolloutSort) = some chosen) :
    (selector.sortedRollouts rolloutSort)[chosen.2]? = some chosen.1 := by
  rw [settingEntry_eq X rolloutSort eventId ordered real] at setting
  have inActive : chosen ∈ specifiedActive Prod.fst eventDateUtc
      (selector.positionedRollouts rolloutSort) := mem_of_specifiedChoice setting
  have member := ((mem_specifiedActive_iff
    (selector.positioned_positionedRollouts rolloutSort)).mp inActive).1
  exact List.mk_mem_zipIdx_iff_getElem?.mp member

/-- A call that returns a release was active and had entries to choose from. -/
theorem settingEntry_of_run {InputFields : Type} {cache cache' : LruCache}
    (reachable : ReachableCache X rolloutSort selector cache)
    {labelerInput : LabelerInput InputFields} {eventId : String}
    (eventIdEq : getEventId labelerInput = .ok eventId) {release : String}
    (run : selector.getModelRelease rolloutSort X labelerInput cache =
      .ok (some release) cache') :
    ∃ chosen, settingEntry X eventId
        (timeUsecToCivilDay labelerInput.timestampUsec.toInt)
        (selector.sortedRollouts rolloutSort) = some chosen ∧
      release = chosen.1.modelRelease := by
  by_cases active : selector.isActive labelerInput.timestampUsec = true
  · obtain ⟨_, run'⟩ := selector.getModelRelease_of_reachable X rolloutSort
      reachable active eventIdEq
    rw [run] at run'
    injection run' with releaseEq _
    obtain ⟨chosen, setting, rfl⟩ := Option.map_eq_some_iff.mp releaseEq.symm
    exact ⟨chosen, setting, rfl⟩
  · rw [getModelRelease, if_neg active, Step.run_pure] at run
    injection run with impossible _
    contradiction

variable [LawfulTimeExternals]

/-- Of two active calls for one event id that return a release, the one for the
later date has its result set by the same rollout or by a later one. -/
theorem settingEntry_mono {modelLine : ModelLine}
    {modelRollouts : List ModelRollout}
    (built : build modelLine modelRollouts = .ok selector)
    (ordered : ∀ rollout ∈ modelRollouts,
      rollout.rolloutPeriodStartDate ≤ rollout.rolloutPeriodEndDate)
    {InputFields : Type} {cache cache' laterCache laterCache' : LruCache}
    (reachable : ReachableCache X rolloutSort selector cache)
    (laterReachable : ReachableCache X rolloutSort selector laterCache)
    {labelerInput laterInput : LabelerInput InputFields} {eventId : String}
    (eventIdEq : getEventId labelerInput = .ok eventId)
    (laterEventIdEq : getEventId laterInput = .ok eventId)
    (le : timeUsecToCivilDay labelerInput.timestampUsec.toInt ≤
      timeUsecToCivilDay laterInput.timestampUsec.toInt)
    {release laterRelease : String}
    (run : selector.getModelRelease rolloutSort X labelerInput cache =
      .ok (some release) cache')
    (laterRun : selector.getModelRelease rolloutSort X laterInput laterCache =
      .ok (some laterRelease) laterCache') :
    ∃ chosen later : ModelRollout × ℕ,
      settingEntry X eventId
          (timeUsecToCivilDay labelerInput.timestampUsec.toInt)
          (selector.sortedRollouts rolloutSort) = some chosen ∧
        settingEntry X eventId
          (timeUsecToCivilDay laterInput.timestampUsec.toInt)
          (selector.sortedRollouts rolloutSort) = some later ∧
        (selector.sortedRollouts rolloutSort)[chosen.2]? = some chosen.1 ∧
        (selector.sortedRollouts rolloutSort)[later.2]? = some later.1 ∧
        release = chosen.1.modelRelease ∧
        laterRelease = later.1.modelRelease ∧
        chosen.2 ≤ later.2 := by
  have rolloutsEq := modelRollouts_eq built
  have orderedSelector : Ordered selector := by rwa [Ordered, rolloutsEq]
  obtain ⟨chosen, setting, releaseEq⟩ :=
    settingEntry_of_run X rolloutSort reachable eventIdEq run
  obtain ⟨later, laterSetting, laterReleaseEq⟩ :=
    settingEntry_of_run X rolloutSort laterReachable laterEventIdEq laterRun
  have bounds := timeUsecToCivilDay_bounds labelerInput.timestampUsec
  have laterBounds := timeUsecToCivilDay_bounds laterInput.timestampUsec
  refine ⟨chosen, later, setting, laterSetting,
    getElem?_of_settingEntry X rolloutSort orderedSelector bounds.2.2 setting,
    getElem?_of_settingEntry X rolloutSort orderedSelector laterBounds.2.2
      laterSetting, releaseEq, laterReleaseEq, ?_⟩
  rw [settingEntry_eq X rolloutSort eventId orderedSelector bounds.2.2]
    at setting
  rw [settingEntry_eq X rolloutSort eventId orderedSelector laterBounds.2.2]
    at laterSetting
  exact specifiedChoice_mono
    (selector.positioned_positionedRollouts rolloutSort)
    (selector.positions_pairwise rolloutSort)
    (orderedSelector.positionedRollouts rolloutSort)
    (selector.pairwise_positionedRollouts rolloutSort) le laterBounds.2.1
    setting laterSetting

end Calls

section Example

attribute [local instance] documentedTimes

/-- The event of the third day a day earlier. -/
def secondDayInput : LabelerInput Unit :=
  { thirdDayInput with timestampUsec := 86400000000 }

/-- On the second day the selector gives every event the first release. -/
theorem secondDay_release :
    ∃ cache', thirdDaySelector.getModelRelease insertionRolloutSort
      Externals.constant secondDayInput (.new kCacheSize) =
        .ok (some "modelReleases/r1") cache' := by
  have choice : (settingEntry Externals.constant "5rt0w5bc00004916" 1
      (thirdDaySelector.sortedRollouts insertionRolloutSort)).map
        (·.1.modelRelease) = some "modelReleases/r1" := by decide
  rw [← choice]
  exact getModelRelease_of_reachable Externals.constant insertionRolloutSort
    _ .new rfl rfl

/-- On the third day it gives events of a small fingerprint the second one. -/
theorem thirdDay_release :
    ∃ cache', thirdDaySelector.getModelRelease insertionRolloutSort
      Externals.constant thirdDayInput (.new kCacheSize) =
        .ok (some "modelReleases/r2") cache' := by
  have choice : (settingEntry Externals.constant "5rt0w5bc00004916" 2
      (thirdDaySelector.sortedRollouts insertionRolloutSort)).map
        (·.1.modelRelease) = some "modelReleases/r2" := by decide
  rw [← choice]
  exact getModelRelease_of_reachable Externals.constant insertionRolloutSort
    _ .new rfl rfl

/-- The second release takes the event over between the two days, and its
rollout is the later one of the sorted list. -/
theorem settingEntry_mono_thirdDay :
    ∃ chosen later : ModelRollout × ℕ,
      settingEntry Externals.constant "5rt0w5bc00004916" 1
          (thirdDaySelector.sortedRollouts insertionRolloutSort) =
        some chosen ∧
      settingEntry Externals.constant "5rt0w5bc00004916" 2
          (thirdDaySelector.sortedRollouts insertionRolloutSort) =
        some later ∧
      chosen.1.modelRelease = "modelReleases/r1" ∧
      later.1.modelRelease = "modelReleases/r2" ∧ chosen.2 < later.2 := by
  obtain ⟨cache', run⟩ := secondDay_release
  obtain ⟨laterCache', laterRun⟩ := thirdDay_release
  obtain ⟨chosen, later, setting, laterSetting, chosenAt, laterAt, releaseEq,
      laterReleaseEq, le⟩ :=
    settingEntry_mono Externals.constant insertionRolloutSort
      (show build thirdDaySelector.modelLine thirdDaySelector.modelRollouts =
        .ok thirdDaySelector from rfl) (by decide) .new .new
      (show getEventId secondDayInput = .ok "5rt0w5bc00004916" from rfl)
      (show getEventId thirdDayInput = .ok "5rt0w5bc00004916" from rfl)
      (by decide) run laterRun
  refine ⟨chosen, later, setting, laterSetting, releaseEq.symm,
    laterReleaseEq.symm, lt_of_le_of_ne le fun same => ?_⟩
  rw [same, laterAt, Option.some_inj] at chosenAt
  rw [chosenAt, ← releaseEq] at laterReleaseEq
  exact absurd laterReleaseEq (by decide)

end Example

end VidModelSelector

end VirtualPeople.Selector
