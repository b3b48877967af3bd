import VirtualPeople.Kotlin.ModelRelease
import VirtualPeople.Selector.Rollouts

/-!
# The order in which rollouts are listed

The Kotlin selector sorts its rollouts by their start dates, and its sort keeps
the order of rollouts that start on one day.  Calls return the same however the
list is ordered otherwise, whatever calls came before them.
-/

namespace VirtualPeople.Kotlin

open Selector (Date ModelLine ModelReleasePercentile ModelRollout)
open StableSort (withKey)

variable (K : SelectorExternals)

/-! ## Lists that differ in their order -/

/-- The rollout starts on the day. -/
def startsOn (day : ℤ) (rollout : ModelRollout) : Bool :=
  match rolloutPeriodStartDate K rollout with
  | .ok startDate => startDate = day
  | .error _ => false

/-- Another order of the same rollouts, in which those that start on one day
keep theirs. -/
structure Reordered (rollouts rollouts' : List ModelRollout) : Prop where
  perm : rollouts.Perm rollouts'
  sameDay : ∀ day,
    rollouts.filter (startsOn K day) = rollouts'.filter (startsOn K day)

section Sorting

variable {K} {rollouts rollouts' : List ModelRollout}

theorem Reordered.symm (reordered : Reordered K rollouts rollouts') :
    Reordered K rollouts' rollouts where
  perm := reordered.perm.symm
  sameDay day := (reordered.sameDay day).symm

/-- With one rollout a day at most every order will do. -/
theorem Reordered.of_perm (perm : rollouts.Perm rollouts')
    (distinct : ∀ day, (rollouts.filter (startsOn K day)).length ≤ 1) :
    Reordered K rollouts rollouts' where
  perm := perm
  sameDay day := by
    have sameOfDay := perm.filter (startsOn K day)
    rcases Nat.le_one_iff_eq_zero_or_eq_one.mp (distinct day) with none | one
    · rw [List.length_eq_zero_iff] at none
      rw [none] at sameOfDay ⊢
      exact sameOfDay.nil_eq
    · obtain ⟨rollout, rolloutEq⟩ := List.length_eq_one_iff.mp one
      rw [rolloutEq] at sameOfDay ⊢
      exact List.singleton_perm.mp sameOfDay

theorem datedRollout_eq_ok_iff {rollout : ModelRollout}
    {dated : ℤ × ModelRollout} :
    datedRollout K rollout = .ok dated ↔
      rolloutPeriodStartDate K rollout = .ok dated.1 ∧ dated.2 = rollout := by
  unfold datedRollout
  rw [bind_eq_ok_iff]
  constructor
  · rintro ⟨startDate, startEq, datedEq⟩
    rw [← Except.ok.inj datedEq]
    exact ⟨startEq, rfl⟩
  · rintro ⟨startEq, rfl⟩
    exact ⟨dated.1, startEq, rfl⟩

/-- The dated rollouts of a day are the rollouts that start on it. -/
theorem withKey_dated {dated : List (ℤ × ModelRollout)}
    (mapped : rollouts.mapM (datedRollout K) = .ok dated) (day : ℤ) :
    withKey Prod.fst day dated =
      (rollouts.filter (startsOn K day)).map fun rollout => (day, rollout) := by
  induction mapM_eq_ok_iff.mp mapped with
  | nil => rfl
  | @cons _ entry _ _ head tail inductionHypothesis =>
    have rest := inductionHypothesis (mapM_eq_ok_iff.mpr tail)
    obtain ⟨startDate, rollout⟩ := entry
    obtain ⟨startEq, rfl⟩ := datedRollout_eq_ok_iff.mp head
    unfold withKey at rest ⊢
    rw [List.filter_cons, List.filter_cons, rest]
    simp only [startsOn, startEq]
    by_cases onDay : startDate = day
    · simp [onDay]
    · simp [onDay]

theorem sortedRollouts_of_reordered {modelLine : ModelLine}
    {sorted : List ModelRollout} (reordered : Reordered K rollouts rollouts')
    (sortedEq : (VidModelSelector.mk modelLine rollouts).sortedRollouts K =
      .ok sorted) :
    (VidModelSelector.mk modelLine rollouts').sortedRollouts K = .ok sorted := by
  obtain ⟨dated, mapped, resultEq⟩ := bind_eq_ok_iff.mp sortedEq
  have mapped' : Succeeds (rollouts'.mapM (datedRollout K)) := by
    have each := succeeds_mapM_iff.mp ⟨dated, mapped⟩
    exact succeeds_mapM_iff.mpr fun rollout member =>
      each rollout (reordered.perm.mem_iff.mpr member)
  obtain ⟨dated', mapped'⟩ := mapped'
  refine bind_eq_ok_iff.mpr ⟨dated', mapped', ?_⟩
  rw [← resultEq, StableSort.sortBy_congr fun day => ?_]
  rw [withKey_dated mapped, withKey_dated mapped', reordered.sameDay]

end Sorting

/-! ## Calls without the cache -/

namespace VidModelSelector

section Direct

variable {K} {modelLine : ModelLine} {rollouts rollouts' : List ModelRollout}

theorem calculatePercentages_of_reordered
    (reordered : Reordered K rollouts rollouts') {eventDateUtc : ℤ}
    {percentages : List ModelReleasePercentile}
    (calculated : (mk modelLine rollouts).calculatePercentages K eventDateUtc =
      .ok percentages) :
    (mk modelLine rollouts').calculatePercentages K eventDateUtc =
      .ok percentages := by
  refine ok_bind_of_ok (fun active retrieved => ?_) calculated
  exact ok_bind_of_ok (fun _ => sortedRollouts_of_reordered reordered) retrieved

theorem succeeds_build_iff :
    Succeeds (build K modelLine rollouts) ↔
      ∃ modelLineKey,
        ModelLineKey.fromName K modelLine.name = .ok (some modelLineKey) ∧
        ∀ rollout ∈ rollouts,
          Succeeds (checkRollout K modelLineKey.modelLineId rollout) := by
  unfold build
  rw [succeeds_bind_iff_exists]
  constructor
  · rintro ⟨modelLineKey, keyEq, rest⟩
    cases modelLineKey with
    | none => exact absurd rest (not_succeeds_throw _)
    | some modelLineKey =>
      refine ⟨modelLineKey, keyEq, ?_⟩
      rwa [succeeds_bind_pure, succeeds_forM_iff] at rest
  · rintro ⟨modelLineKey, keyEq, each⟩
    refine ⟨some modelLineKey, keyEq, ?_⟩
    rwa [succeeds_bind_pure, succeeds_forM_iff]

theorem build_eq_ok {selector : VidModelSelector}
    (built : build K modelLine rollouts = .ok selector) :
    selector = ⟨modelLine, rollouts⟩ := by
  obtain ⟨modelLineKey, -, rest⟩ := bind_eq_ok_iff.mp built
  cases modelLineKey with
  | none => contradiction
  | some modelLineKey =>
    obtain ⟨-, -, selectorEq⟩ := bind_eq_ok_iff.mp rest
    exact (Except.ok.inj selectorEq).symm

end Direct

/-! ## Calls with the cache -/

section Calls

variable (X : Externals) (selector : VidModelSelector) {InputFields : Type}
  (labelerInput : LabelerInput InputFields)

/-- What a call returns without the cache. -/
def directRelease : Result (Option String) :=
  if isActive selector.modelLine labelerInput.timestampUsec then do
    let percentages ←
      selector.calculatePercentages K (eventDateUtc labelerInput.timestampUsec)
    chooseRelease X labelerInput percentages
  else return none

/-- A cache that calls of the selector have led to. -/
inductive ReachableCache : ReleaseCache → Prop
  | new : ReachableCache .empty
  | call {InputFields : Type} {cache : ReleaseCache}
      (reachable : ReachableCache cache)
      (labelerInput : LabelerInput InputFields) :
      ReachableCache (Step.final
        (selector.getModelRelease K X labelerInput cache))

/-- Days in the cache have the percentages that are calculated for them. -/
def CacheAgrees (cache : ReleaseCache) : Prop :=
  ∀ eventDateUtc percentages, cache.lookup eventDateUtc = some percentages →
    selector.calculatePercentages K eventDateUtc = .ok percentages

variable {K selector} {cache : ReleaseCache}

theorem CacheAgrees.add (agrees : selector.CacheAgrees K cache)
    {eventDateUtc : ℤ} {percentages : List ModelReleasePercentile}
    (calculated : selector.calculatePercentages K eventDateUtc =
      .ok percentages) :
    selector.CacheAgrees K (cache.add eventDateUtc percentages) := by
  intro day held found
  by_cases same : day = eventDateUtc
  · subst same
    rw [RecencyMap.lookup_add_self (by decide)] at found
    rwa [← Option.some.inj found]
  · exact agrees day held (RecencyMap.lookup_of_lookup_add same found)

/-- Reading from the cache returns what is calculated. -/
theorem CacheAgrees.readFromCache (agrees : selector.CacheAgrees K cache)
    (eventDateUtc : ℤ) :
    Step.outcome (selector.readFromCache K eventDateUtc cache) =
        selector.calculatePercentages K eventDateUtc ∧
      selector.CacheAgrees K
        (Step.final (selector.readFromCache K eventDateUtc cache)) := by
  unfold VidModelSelector.readFromCache
  rw [Step.run_bind_of_ok _ (Step.run_get cache)]
  unfold RecencyMap.get
  cases found : cache.lookup eventDateUtc with
  | some percentages =>
    have calculated := agrees eventDateUtc percentages found
    exact ⟨calculated.symm, agrees.add calculated⟩
  | none =>
    cases calculated : selector.calculatePercentages K eventDateUtc with
    | error fault => exact ⟨rfl, agrees⟩
    | ok percentages => exact ⟨rfl, agrees.add calculated⟩

/-- Each call returns what it would without the cache. -/
theorem CacheAgrees.getModelRelease (agrees : selector.CacheAgrees K cache) :
    Step.outcome (selector.getModelRelease K X labelerInput cache) =
        selector.directRelease K X labelerInput ∧
      selector.CacheAgrees K
        (Step.final (selector.getModelRelease K X labelerInput cache)) := by
  unfold VidModelSelector.getModelRelease directRelease
  split_ifs with active
  · obtain ⟨outcomeEq, finalAgrees⟩ :=
      agrees.readFromCache (eventDateUtc labelerInput.timestampUsec)
    rw [← outcomeEq]
    cases run : selector.readFromCache K
        (eventDateUtc labelerInput.timestampUsec) cache with
    | error fault final =>
      rw [Step.run_bind_of_error _ run]
      rw [run] at finalAgrees
      exact ⟨rfl, finalAgrees⟩
    | ok percentages final =>
      rw [Step.run_bind_of_ok _ run]
      rw [run] at finalAgrees
      cases chosen : chooseRelease X labelerInput percentages with
      | error fault => exact ⟨chosen.symm, finalAgrees⟩
      | ok release => exact ⟨chosen.symm, finalAgrees⟩
  · exact ⟨rfl, agrees⟩

theorem ReachableCache.agrees
    (reachable : selector.ReachableCache K X cache) :
    selector.CacheAgrees K cache := by
  induction reachable with
  | new => exact nofun
  | call _ labelerInput inductionHypothesis =>
    exact (inductionHypothesis.getModelRelease X labelerInput).2

end Calls

/-! ## The order makes no difference -/

section Order

variable {K} (X : Externals) {modelLine : ModelLine}
  {rollouts rollouts' : List ModelRollout} {InputFields : Type}
  {labelerInput : LabelerInput InputFields}

theorem directRelease_of_reordered (reordered : Reordered K rollouts rollouts')
    {release : Option String}
    (chosen : (mk modelLine rollouts).directRelease K X labelerInput =
      .ok release) :
    (mk modelLine rollouts').directRelease K X labelerInput = .ok release := by
  unfold directRelease at chosen ⊢
  split_ifs at chosen ⊢
  · exact ok_bind_of_ok (fun _ => calculatePercentages_of_reordered reordered)
      chosen
  · exact chosen

theorem succeeds_build_of_reordered (reordered : Reordered K rollouts rollouts')
    (succeeds : Succeeds (build K modelLine rollouts)) :
    Succeeds (build K modelLine rollouts') := by
  obtain ⟨modelLineKey, keyEq, each⟩ := succeeds_build_iff.mp succeeds
  exact succeeds_build_iff.mpr ⟨modelLineKey, keyEq, fun rollout member =>
    each rollout (reordered.perm.mem_iff.mpr member)⟩

/-- Selectors that differ in the order of their rollouts are built or refused
together, and return the same releases, whatever calls have come before. -/
theorem getModelRelease_of_reordered (modelLine : ModelLine)
    (reordered : Reordered K rollouts rollouts') :
    (Succeeds (build K modelLine rollouts) ↔
        Succeeds (build K modelLine rollouts')) ∧
      ∀ selector selector', build K modelLine rollouts = .ok selector →
        build K modelLine rollouts' = .ok selector' →
        ∀ cache cache', selector.ReachableCache K X cache →
          selector'.ReachableCache K X cache' →
          ∀ {InputFields : Type} (labelerInput : LabelerInput InputFields)
            (release : Option String),
            Step.outcome (selector.getModelRelease K X labelerInput cache) =
                .ok release ↔
              Step.outcome (selector'.getModelRelease K X labelerInput cache') =
                .ok release := by
  refine ⟨⟨succeeds_build_of_reordered reordered,
    succeeds_build_of_reordered reordered.symm⟩, ?_⟩
  intro selector selector' built built' cache cache' reachable reachable'
    InputFields labelerInput release
  rw [((reachable.agrees X).getModelRelease X labelerInput).1,
    ((reachable'.agrees X).getModelRelease X labelerInput).1,
    build_eq_ok built, build_eq_ok built']
  exact ⟨directRelease_of_reordered X reordered,
    directRelease_of_reordered X reordered.symm⟩

end Order

/-! ## Rollouts that start on one day -/

section Example

open Selector.VidModelSelector (thirdDayInput)

/-- The ids of a name, segment by segment; a segment in braces stands for an
id that is not empty. -/
def parseSegments : List (List Char) → List (List Char) →
    Option (List (String × String))
  | [], [] => some []
  | ('\x7b' :: variableName) :: pattern, segment :: segments =>
    if segment = [] then none
    else (parseSegments pattern segments).map
      ((String.ofList variableName.dropLast, String.ofList segment) :: ·)
  | literal :: pattern, segment :: segments =>
    if literal = segment then parseSegments pattern segments else none
  | _, _ => none

/-- A parser of paths, and the dates of the proleptic Gregorian calendar. -/
def calendarExternals : SelectorExternals where
  parseIdSegments pattern resourceName :=
    parseSegments (pattern.toList.splitOn '/') (resourceName.toList.splitOn '/')
  toLocalDate date :=
    let day := Selector.gregorianDay date.year.toInt date.month.toInt
      date.day.toInt
    let nextMonth :=
      Selector.gregorianDay date.year.toInt (date.month.toInt + 1) 1
    if 1 ≤ date.month ∧ date.month ≤ 12 ∧ 1 ≤ date.day ∧ day < nextMonth then
      .ok day
    else .error (.illegalArgument "Invalid date")

/-- A model line that is active in January 1970. -/
def januaryLine : ModelLine where
  name := "modelProviders/p1/modelSuites/s1/modelLines/l1"
  activeStartTime := some ⟨0, 0⟩
  activeEndTime := some ⟨2678400, 0⟩

/-- The names of two rollouts of the line. -/
def januaryNames : List String :=
  ["modelProviders/p1/modelSuites/s1/modelLines/l1/modelRollouts/r1",
    "modelProviders/p1/modelSuites/s1/modelLines/l1/modelRollouts/r2"]

/-- Two releases for everyone, from these days of January on. -/
def januaryRollouts (day day' : Int32) : List ModelRollout :=
  [⟨"modelProviders/p1/modelSuites/s1/modelLines/l1/modelRollouts/r1",
      .instantRolloutDate ⟨1970, 1, day⟩, none, "modelReleases/r1"⟩,
    ⟨"modelProviders/p1/modelSuites/s1/modelLines/l1/modelRollouts/r2",
      .instantRolloutDate ⟨1970, 1, day'⟩, none, "modelReleases/r2"⟩]

theorem build_januaryLine {rollouts : List ModelRollout}
    (named : ∀ rollout ∈ rollouts, rollout.name ∈ januaryNames) :
    build calendarExternals januaryLine rollouts =
      .ok ⟨januaryLine, rollouts⟩ := by
  have key : ModelLineKey.fromName calendarExternals januaryLine.name =
      .ok (some ⟨"p1", "s1", "l1"⟩) :=
    toOption_eq_some_iff.mp (by decide +kernel)
  have checks : ∀ name ∈ januaryNames, Succeeds
      (checkRollout calendarExternals "l1" ⟨name, .notSet, none, ""⟩) := by
    decide +kernel
  obtain ⟨selector, built⟩ := succeeds_build_iff.mpr ⟨_, key,
    fun rollout member => checks rollout.name (named rollout member)⟩
  rw [built, build_eq_ok built]

/-- What a selector of the line returns for an event of the third day. -/
def thirdDayRelease (rollouts : List ModelRollout) : Result (Option String) :=
  Step.outcome ((mk januaryLine rollouts).getModelRelease calendarExternals
    Externals.constant thirdDayInput .empty)

/-- Of two releases that start on one day the one that is listed last is
returned. -/
theorem getModelRelease_depends_on_order :
    let rollouts := januaryRollouts 2 2
    rollouts.Perm rollouts.reverse ∧
      build calendarExternals januaryLine rollouts =
        .ok ⟨januaryLine, rollouts⟩ ∧
      build calendarExternals januaryLine rollouts.reverse =
        .ok ⟨januaryLine, rollouts.reverse⟩ ∧
      thirdDayRelease rollouts = .ok (some "modelReleases/r2") ∧
      thirdDayRelease rollouts.reverse = .ok (some "modelReleases/r1") := by
  refine ⟨(List.reverse_perm _).symm, build_januaryLine (by decide),
    build_januaryLine (by decide), ?_, ?_⟩
  · exact toOption_eq_some_iff.mp (by decide +kernel)
  · exact toOption_eq_some_iff.mp (by decide +kernel)

/-- Of two releases that start on different days the later one is returned in
both orders. -/
theorem getModelRelease_of_reordered_thirdDay :
    let rollouts := januaryRollouts 2 3
    thirdDayRelease rollouts = .ok (some "modelReleases/r2") ∧
      thirdDayRelease rollouts.reverse = .ok (some "modelReleases/r2") := by
  intro rollouts
  have firstDay : calendarExternals.toLocalDate ⟨1970, 1, 2⟩ = .ok 1 :=
    toOption_eq_some_iff.mp (by decide +kernel)
  have secondDay : calendarExternals.toLocalDate ⟨1970, 1, 3⟩ = .ok 2 :=
    toOption_eq_some_iff.mp (by decide +kernel)
  have reordered : Reordered calendarExternals rollouts rollouts.reverse := by
    refine .of_perm (List.reverse_perm _).symm fun day => ?_
    simp only [rollouts, januaryRollouts, List.filter_cons, List.filter_nil,
      startsOn, rolloutPeriodStartDate, ModelRollout.instantRolloutDate,
      firstDay, secondDay, decide_eq_true_eq]
    split_ifs <;> simp
    omega
  have release : thirdDayRelease rollouts = .ok (some "modelReleases/r2") :=
    toOption_eq_some_iff.mp (by decide +kernel)
  refine ⟨release, ?_⟩
  have same := (getModelRelease_of_reordered Externals.constant januaryLine
    reordered).2 _ _ (build_januaryLine (by decide))
    (build_januaryLine (by decide)) _ _ .new .new thirdDayInput
  exact (same _).mp release

end Example

end VidModelSelector

end VirtualPeople.Kotlin
