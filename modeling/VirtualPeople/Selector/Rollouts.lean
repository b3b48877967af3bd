import VirtualPeople.Selector.VidModelSelector

/-!
# What the selector chooses

The backward scan over the sorted rollouts keeps the started ones from the last
completed rollout without a freeze date on, and the loop over their percentages
ends with the last one that adopts the event.  Read this way, the choice only
moves on as the date does.
-/

namespace VirtualPeople.Selector

open TimeExternals (maxCivilDay toDoubleSeconds)

/-! ## The specification -/

/-- The last entry that adopts, or the first entry when none does. -/
def specifiedChoice {α : Type} (adopts : α → Bool) (active : List α) :
    Option α :=
  (active.filter adopts).getLast?.or active.head?

section Specification

variable [TimeExternals] {α : Type} (rolloutOf : α → ModelRollout)
  (eventDateUtc : ℤ)

/-- The rollout is over, and nothing ever froze it. -/
def Completed (rollout : ModelRollout) : Prop :=
  rollout.rolloutPeriodEndDate ≤ eventDateUtc ∧
    rollout.rolloutFreezeDate = none

instance (rollout : ModelRollout) : Decidable (Completed eventDateUtc rollout) :=
  inferInstanceAs (Decidable (_ ∧ _))

/-- The largest position of a completed rollout, zero when there is none. -/
def lastCompleted (entries : List α) : ℕ :=
  Nat.findGreatest
    (fun position => ∃ entry ∈ entries[position]?,
      Completed eventDateUtc (rolloutOf entry))
    entries.length

/-- The started entries from the last completed one on. -/
def specifiedActive (entries : List α) : List α :=
  (entries.drop (lastCompleted rolloutOf eventDateUtc entries)).filter
    fun entry => (rolloutOf entry).rolloutPeriodStartDate ≤ eventDateUtc

/-- The last day that counts for the percentage. -/
def percentageDate (eventDateUtc : ℤ) (rollout : ModelRollout) : ℤ :=
  match rollout.rolloutFreezeDate with
  | some freezeDate => min eventDateUtc freezeDate.toCivilDay
  | none => eventDateUtc

/-- The elapsed share of the rollout period, as the quotient of the doubles that
the two lengths are converted to. -/
def specifiedPercentage (eventDateUtc : ℤ) (rollout : ModelRollout) : Float :=
  let startDate := rollout.rolloutPeriodStartDate
  let endDate := rollout.rolloutPeriodEndDate
  if startDate = endDate then 1.1
  else
    toDoubleSeconds ((percentageDate eventDateUtc rollout - startDate) * 86400) /
      toDoubleSeconds ((endDate - startDate) * 86400)

/-- The scaled fingerprint is below the percentage. -/
def adopts (X : Externals) (eventId : String) (eventDateUtc : ℤ)
    (rollout : ModelRollout) : Bool :=
  VidModelSelector.reducedEventId X rollout.modelRelease eventId <
    specifiedPercentage eventDateUtc rollout

end Specification

/-! ## The scan -/

section Scan

variable [TimeExternals] {α : Type} {rolloutOf : α → ModelRollout}
  {eventDateUtc : ℤ}

theorem lastCompleted_le (entries : List α) :
    lastCompleted rolloutOf eventDateUtc entries ≤ entries.length :=
  Nat.findGreatest_le _

theorem lastCompleted_append_of_completed (entries : List α) {entry : α}
    (completed : Completed eventDateUtc (rolloutOf entry)) :
    lastCompleted rolloutOf eventDateUtc (entries ++ [entry]) =
      entries.length := by
  unfold lastCompleted
  rw [Nat.findGreatest_eq_iff]
  refine ⟨by simp, fun _ => ⟨entry, by simp, completed⟩, ?_⟩
  rintro position after - ⟨other, found, -⟩
  rw [Option.mem_def, List.getElem?_eq_none (by simp; omega)] at found
  contradiction

theorem lastCompleted_append_of_not_completed (entries : List α) {entry : α}
    (notCompleted : ¬Completed eventDateUtc (rolloutOf entry)) :
    lastCompleted rolloutOf eventDateUtc (entries ++ [entry]) =
      lastCompleted rolloutOf eventDateUtc entries := by
  have spec := Nat.findGreatest_eq_iff.mp
    (rfl : lastCompleted rolloutOf eventDateUtc entries = _)
  obtain ⟨le, isCompleted, last⟩ := spec
  rw [lastCompleted, Nat.findGreatest_eq_iff]
  refine ⟨by simp only [List.length_append]; omega, ?_, ?_⟩
  · intro nonzero
    obtain ⟨other, found, completed⟩ := isCompleted nonzero
    have inside := (List.getElem?_eq_some_iff.mp found).1
    exact ⟨other, by rwa [List.getElem?_append_left inside], completed⟩
  · rintro position after - ⟨other, found, completed⟩
    rcases Nat.lt_trichotomy position entries.length with less | equal | greater
    · rw [List.getElem?_append_left less] at found
      exact last after less.le ⟨other, found, completed⟩
    · rw [equal, List.getElem?_concat_length, Option.mem_some] at found
      exact notCompleted (found ▸ completed)
    · rw [Option.mem_def, List.getElem?_eq_none (by simp; omega)] at found
      contradiction

/-- The scan keeps the specified entries. -/
theorem collectActive_eq (entries : List α)
    (ordered : ∀ entry ∈ entries,
      (rolloutOf entry).rolloutPeriodStartDate ≤
        (rolloutOf entry).rolloutPeriodEndDate) :
    (VidModelSelector.collectActive rolloutOf eventDateUtc
        entries.reverse).reverse =
      specifiedActive rolloutOf eventDateUtc entries := by
  induction entries using List.reverseRecOn with
  | nil => rfl
  | append_singleton entries entry inductionHypothesis =>
    have rest := inductionHypothesis fun other member =>
      ordered other (List.mem_append_left _ member)
    have startLe := ordered entry (by simp)
    unfold specifiedActive at rest ⊢
    rw [List.reverse_append, List.reverse_singleton, List.singleton_append]
    simp only [VidModelSelector.collectActive]
    by_cases completed : Completed eventDateUtc (rolloutOf entry)
    · have ⟨ended, notFrozen⟩ := completed
      rw [if_pos ended, if_pos (by rw [notFrozen]; rfl),
        lastCompleted_append_of_completed entries completed,
        List.drop_left, List.reverse_singleton, List.filter_cons_of_pos
          (by simpa using startLe.trans ended), List.filter_nil]
    · rw [lastCompleted_append_of_not_completed entries completed,
        List.drop_append_of_le_length (lastCompleted_le entries),
        List.filter_append, ← rest]
      have endOrFrozen : eventDateUtc ≥
          (rolloutOf entry).rolloutPeriodEndDate →
            (rolloutOf entry).rolloutFreezeDate.isNone = false := by
        intro ended
        cases frozen : (rolloutOf entry).rolloutFreezeDate with
        | none => exact absurd ⟨ended, frozen⟩ completed
        | some date => rfl
      split_ifs with ended notFrozen started
      · rw [endOrFrozen ended] at notFrozen
        contradiction
      · rw [List.reverse_cons, List.filter_cons_of_pos
          (by simpa using startLe.trans ended), List.filter_nil]
      · rw [List.reverse_cons, List.filter_cons_of_pos (by simpa using started),
          List.filter_nil]
      · rw [List.filter_cons_of_neg (by simpa using started), List.filter_nil,
          List.append_nil]

/-- Before the first rollout starts, nothing is active. -/
theorem specifiedActive_eq_nil {first : α} {rest : List α}
    (sorted : (first :: rest).Pairwise fun earlier later =>
      (rolloutOf earlier).rolloutPeriodStartDate ≤
        (rolloutOf later).rolloutPeriodStartDate)
    (early : eventDateUtc < (rolloutOf first).rolloutPeriodStartDate) :
    specifiedActive rolloutOf eventDateUtc (first :: rest) = [] := by
  rw [specifiedActive, List.filter_eq_nil_iff]
  intro entry member
  rcases List.mem_cons.mp (List.mem_of_mem_drop member) with rfl | inRest
  · simpa using early
  · have := List.rel_of_pairwise_cons sorted inRest
    simp only [decide_eq_true_eq, not_le]
    omega

/-- The selected entries of a list that is sorted by start date. -/
theorem activeEntries_eq (entries : List α)
    (ordered : ∀ entry ∈ entries,
      (rolloutOf entry).rolloutPeriodStartDate ≤
        (rolloutOf entry).rolloutPeriodEndDate)
    (sorted : entries.Pairwise fun earlier later =>
      (rolloutOf earlier).rolloutPeriodStartDate ≤
        (rolloutOf later).rolloutPeriodStartDate) :
    VidModelSelector.activeEntries rolloutOf eventDateUtc entries =
      specifiedActive rolloutOf eventDateUtc entries := by
  cases entries with
  | nil => rfl
  | cons first rest =>
    simp only [VidModelSelector.activeEntries]
    split_ifs with early
    · exact (specifiedActive_eq_nil sorted early).symm
    · exact collectActive_eq _ ordered

theorem getElem_lastCompleted {entries : List α}
    (nonzero : lastCompleted rolloutOf eventDateUtc entries ≠ 0) :
    ∃ entry, entries[lastCompleted rolloutOf eventDateUtc entries]? =
        some entry ∧ Completed eventDateUtc (rolloutOf entry) := by
  obtain ⟨-, isCompleted, -⟩ := Nat.findGreatest_eq_iff.mp
    (rfl : lastCompleted rolloutOf eventDateUtc entries = _)
  obtain ⟨entry, found, completed⟩ := isCompleted nonzero
  exact ⟨entry, found, completed⟩

/-- Once the first rollout has started, the active entries begin with the last
completed one, or with the first one. -/
theorem head?_specifiedActive {first : α} {rest : List α}
    (ordered : ∀ entry ∈ first :: rest,
      (rolloutOf entry).rolloutPeriodStartDate ≤
        (rolloutOf entry).rolloutPeriodEndDate)
    (started : (rolloutOf first).rolloutPeriodStartDate ≤ eventDateUtc) :
    ∃ entry, (first :: rest)[lastCompleted rolloutOf eventDateUtc
        (first :: rest)]? = some entry ∧
      (specifiedActive rolloutOf eventDateUtc (first :: rest)).head? =
        some entry := by
  have found : ∃ entry, (first :: rest)[lastCompleted rolloutOf eventDateUtc
      (first :: rest)]? = some entry ∧
      (rolloutOf entry).rolloutPeriodStartDate ≤ eventDateUtc := by
    by_cases zero : lastCompleted rolloutOf eventDateUtc (first :: rest) = 0
    · exact ⟨first, by rw [zero]; rfl, started⟩
    · obtain ⟨entry, found, ended, -⟩ := getElem_lastCompleted zero
      exact ⟨entry, found,
        (ordered entry (List.mem_of_getElem? found)).trans ended⟩
  obtain ⟨entry, found, entryStarted⟩ := found
  refine ⟨entry, found, ?_⟩
  obtain ⟨inside, entryEq⟩ := List.getElem?_eq_some_iff.mp found
  rw [specifiedActive, List.drop_eq_getElem_cons inside, entryEq,
    List.filter_cons_of_pos (by simpa using entryStarted)]
  rfl

end Scan

/-! ## The percentages -/

section Percentages

variable [TimeExternals] {eventDateUtc : ℤ} {rollout : ModelRollout}

/-- The code's percentage is the specified one on every day that an event can
have. -/
theorem calculatePercentageAdoption_eq (real : eventDateUtc < maxCivilDay) :
    VidModelSelector.calculatePercentageAdoption eventDateUtc rollout =
      specifiedPercentage eventDateUtc rollout := by
  unfold VidModelSelector.calculatePercentageAdoption specifiedPercentage
    percentageDate ModelRollout.freezeDate
  simp only [VidModelSelector.getTimeDifferenceInSeconds,
    kUpperBoundPercentageAdoption]
  split_ifs with instant frozen
  · rfl
  · cases freezeDate : rollout.rolloutFreezeDate with
    | none =>
      rw [freezeDate] at frozen
      exact absurd frozen (not_le.mpr real)
    | some date =>
      rw [freezeDate] at frozen
      simp only [min_eq_right frozen]
  · cases freezeDate : rollout.rolloutFreezeDate with
    | none => rfl
    | some date =>
      rw [freezeDate] at frozen
      simp only [min_eq_left (not_le.mp frozen).le]

end Percentages

/-! ## The loop over the percentages -/

section Choice

variable {α : Type}

/-- The last entry that passes a test, kept by a fold. -/
theorem foldl_keep_last (passes : α → Bool) (entries : List α) (start : α) :
    entries.foldl (fun kept entry => if passes entry then entry else kept)
      start = (entries.filter passes).getLast?.getD start := by
  induction entries using List.reverseRecOn with
  | nil => rfl
  | append_singleton entries entry inductionHypothesis =>
    rw [List.foldl_append, inductionHypothesis, List.filter_append]
    by_cases passed : passes entry
    · simp [passed]
    · simp [passed]

/-- Folding over what a function makes of the entries. -/
theorem foldl_keep_map {β : Type} (f : α → β) (passes : α → Bool)
    (entries : List α) (start : α) :
    entries.foldl (fun kept entry => if passes entry then f entry else kept)
        (f start) =
      f (entries.foldl (fun kept entry => if passes entry then entry else kept)
        start) := by
  induction entries generalizing start with
  | nil => rfl
  | cons entry entries inductionHypothesis =>
    rw [List.foldl_cons, List.foldl_cons, ← inductionHypothesis]
    split_ifs <;> rfl

/-- The loop's entry is the specified choice. -/
theorem foldl_eq_specifiedChoice (passes : α → Bool) (first : α)
    (rest : List α) :
    specifiedChoice passes (first :: rest) =
      some ((first :: rest).foldl
        (fun kept entry => if passes entry then entry else kept) first) := by
  rw [foldl_keep_last, specifiedChoice]
  cases ((first :: rest).filter passes).getLast? <;> rfl

/-- Choosing among entries and then mapping is choosing among their images. -/
theorem specifiedChoice_map {α β : Type} (f : α → β) (passes : β → Bool)
    (active : List α) :
    (specifiedChoice (passes ∘ f) active).map f =
      specifiedChoice passes (active.map f) := by
  rw [specifiedChoice, specifiedChoice, List.filter_map, List.getLast?_map,
    List.head?_map]
  cases (active.filter (passes ∘ f)).getLast? <;> rfl

end Choice

/-! ## The entry that sets the result -/

namespace VidModelSelector

section Trace

variable [TimeExternals] (X : Externals) (eventId : String) (eventDateUtc : ℤ)

/-- The scan and the loop, run on the sorted rollouts with their positions:
the entry whose release the loop holds at its end. -/
def settingEntry (sortedRollouts : List ModelRollout) :
    Option (ModelRollout × ℕ) :=
  match activeEntries Prod.fst eventDateUtc sortedRollouts.zipIdx with
  | [] => none
  | first :: rest =>
    some ((first :: rest).foldl
      (fun (kept : ModelRollout × ℕ) entry =>
        if reducedEventId X entry.1.modelRelease eventId <
            calculatePercentageAdoption eventDateUtc entry.1 then entry
        else kept)
      first)

theorem collectActive_map {α β : Type} (f : α → β)
    (rolloutOf : β → ModelRollout) (entries : List α) :
    collectActive rolloutOf eventDateUtc (entries.map f) =
      (collectActive (rolloutOf ∘ f) eventDateUtc entries).map f := by
  induction entries with
  | nil => rfl
  | cons entry entries inductionHypothesis =>
    simp only [List.map_cons, collectActive, Function.comp_apply,
      inductionHypothesis]
    split_ifs <;> rfl

theorem activeEntries_map {α β : Type} (f : α → β)
    (rolloutOf : β → ModelRollout) (entries : List α) :
    activeEntries rolloutOf eventDateUtc (entries.map f) =
      (activeEntries (rolloutOf ∘ f) eventDateUtc entries).map f := by
  cases entries with
  | nil => rfl
  | cons first rest =>
    simp only [List.map_cons, activeEntries, Function.comp_apply]
    split_ifs
    · rfl
    · rw [← List.map_cons, ← List.map_reverse, collectActive_map,
        List.map_reverse]

/-- The entries with positions are the entries of the selector. -/
theorem map_fst_activeEntries (sortedRollouts : List ModelRollout) :
    (activeEntries Prod.fst eventDateUtc sortedRollouts.zipIdx).map Prod.fst =
      activeEntries id eventDateUtc sortedRollouts := by
  have mapped := activeEntries_map eventDateUtc
    (Prod.fst : ModelRollout × ℕ → ModelRollout) id sortedRollouts.zipIdx
  rw [List.zipIdx_map_fst] at mapped
  exact mapped.symm

end Trace

section Run

variable [TimeExternals] (X : Externals) (rolloutSort : RolloutSort)
  (selector : VidModelSelector) (eventId : String) (eventDateUtc : ℤ)

/-- The release of the loop is that of the entry that sets it. -/
theorem selectModelRelease_eq :
    (match selector.calculatePercentages rolloutSort eventDateUtc with
      | [] => none
      | first :: rest => some (selectModelRelease X eventId (first :: rest)
          first.modelReleaseResourceKey)) =
      (settingEntry X eventId eventDateUtc
        (selector.sortedRollouts rolloutSort)).map (·.1.modelRelease) := by
  unfold calculatePercentages retrieveActiveRollouts settingEntry
  rw [← map_fst_activeEntries]
  cases activeEntries Prod.fst eventDateUtc
      (selector.sortedRollouts rolloutSort).zipIdx with
  | nil => rfl
  | cons first rest =>
    simp only [List.map_cons, Option.map_some, Option.some_inj]
    have mapped := foldl_keep_map
      (fun entry : ModelRollout × ℕ => entry.1.modelRelease)
      (fun entry => decide (reducedEventId X entry.1.modelRelease eventId <
        calculatePercentageAdoption eventDateUtc entry.1))
      (first :: rest) first
    simp only [decide_eq_true_eq] at mapped
    rw [← mapped, selectModelRelease, List.foldl_cons, List.foldl_cons,
      List.map_map, List.foldl_map]
    rfl

/-- A cache that calls of the selector have led to. -/
inductive ReachableCache : LruCache → Prop
  | new : ReachableCache (.new kCacheSize)
  | call {InputFields : Type} {cache : LruCache}
      (reachable : ReachableCache cache)
      (labelerInput : LabelerInput InputFields) :
      ReachableCache (Step.final
        (selector.getModelRelease rolloutSort X labelerInput cache))

theorem readFromCache_run {cache : LruCache}
    (holds : cache.Holds (selector.calculatePercentages rolloutSort)) :
    ∃ cache', cache'.Holds (selector.calculatePercentages rolloutSort) ∧
      selector.readFromCache rolloutSort eventDateUtc cache =
        .ok (selector.calculatePercentages rolloutSort eventDateUtc)
          cache' := by
  have getHolds := holds.get eventDateUtc
  unfold readFromCache
  rw [Step.run_bind_of_ok _ (Step.run_get cache)]
  cases found : cache.find eventDateUtc with
  | some percentages =>
    have valueEq : (cache.get eventDateUtc).1 = some percentages := by
      unfold LruCache.get
      rw [found]
      simp only
      split_ifs <;> rfl
    refine ⟨_, getHolds, ?_⟩
    simp only
    rw [Step.run_bind_of_ok _ (Step.run_set _ cache), valueEq,
      holds.find_eq found]
    rfl
  | none =>
    have getEq : cache.get eventDateUtc = (none, cache) := by
      rw [LruCache.get, found]
    obtain ⟨added, addedEq, addedHolds⟩ := holds.add found
    refine ⟨added, addedHolds, ?_⟩
    rw [getEq]
    simp only
    rw [Step.run_bind_of_ok _ (Step.run_set cache cache), addedEq]
    rfl

/-- One call, from a cache that holds what the selector calculates. -/
theorem getModelRelease_run {InputFields : Type} {cache : LruCache}
    (holds : cache.Holds (selector.calculatePercentages rolloutSort))
    (labelerInput : LabelerInput InputFields) :
    (Step.final (selector.getModelRelease rolloutSort X labelerInput
        cache)).Holds (selector.calculatePercentages rolloutSort) ∧
      (selector.isActive labelerInput.timestampUsec = true →
        ∀ eventId, getEventId labelerInput = .ok eventId →
          ∃ cache', selector.getModelRelease rolloutSort X labelerInput cache =
            .ok ((settingEntry X eventId
              (timeUsecToCivilDay labelerInput.timestampUsec.toInt)
              (selector.sortedRollouts rolloutSort)).map (·.1.modelRelease))
              cache') := by
  by_cases active : selector.isActive labelerInput.timestampUsec = true
  · obtain ⟨cache', holds', readEq⟩ := selector.readFromCache_run rolloutSort
      (timeUsecToCivilDay labelerInput.timestampUsec.toInt) holds
    have releaseEq (eventId : String) := selector.selectModelRelease_eq X
      rolloutSort eventId (timeUsecToCivilDay labelerInput.timestampUsec.toInt)
    unfold getModelRelease
    rw [if_pos active, Step.run_bind_of_ok _ readEq]
    cases percentagesEq : selector.calculatePercentages rolloutSort
        (timeUsecToCivilDay labelerInput.timestampUsec.toInt) with
    | nil =>
      rw [percentagesEq] at releaseEq
      refine ⟨holds', fun _ eventId _ => ⟨cache', ?_⟩⟩
      rw [← releaseEq eventId]
      rfl
    | cons first rest =>
      rw [percentagesEq] at releaseEq
      constructor
      · cases getEventId labelerInput <;> exact holds'
      · intro _ eventId eventIdEq
        refine ⟨cache', ?_⟩
        rw [← releaseEq eventId, eventIdEq]
        rfl
  · refine ⟨?_, fun contradictory => absurd contradictory active⟩
    unfold getModelRelease
    rw [if_neg active]
    exact holds

/-- Every cache that calls lead to holds what the selector calculates. -/
theorem ReachableCache.holds {cache : LruCache}
    (reachable : ReachableCache X rolloutSort selector cache) :
    cache.Holds (selector.calculatePercentages rolloutSort) := by
  induction reachable with
  | new => exact LruCache.holds_new (by decide)
  | call _ labelerInput inductionHypothesis =>
    exact (selector.getModelRelease_run X rolloutSort inductionHypothesis
      labelerInput).1

/-- What a call of the selector returns, whatever calls came before it. -/
theorem getModelRelease_of_reachable {InputFields : Type} {cache : LruCache}
    (reachable : ReachableCache X rolloutSort selector cache)
    {labelerInput : LabelerInput InputFields}
    (active : selector.isActive labelerInput.timestampUsec = true)
    {eventId : String} (eventIdEq : getEventId labelerInput = .ok eventId) :
    ∃ cache', selector.getModelRelease rolloutSort X labelerInput cache =
      .ok ((settingEntry X eventId
        (timeUsecToCivilDay labelerInput.timestampUsec.toInt)
        (selector.sortedRollouts rolloutSort)).map (·.1.modelRelease))
        cache' :=
  (selector.getModelRelease_run X rolloutSort
    (reachable.holds X rolloutSort selector) labelerInput).2 active eventId
      eventIdEq

end Run

/-! ## The specification is met -/

/-- A selector holds the rollouts that it was built from. -/
theorem modelRollouts_eq {modelLine : ModelLine}
    {modelRollouts : List ModelRollout} {selector : VidModelSelector}
    (built : build modelLine modelRollouts = .ok selector) :
    selector.modelRollouts = modelRollouts := by
  unfold build at built
  simp only at built
  split_ifs at built
  rw [← Except.ok.inj built]

section Meets

variable [TimeExternals] (X : Externals) (rolloutSort : RolloutSort)
  {selector : VidModelSelector} (eventId : String) {eventDateUtc : ℤ}

/-- Every rollout of the selector starts before it ends, or on that day. -/
def Ordered (selector : VidModelSelector) : Prop :=
  ∀ rollout ∈ selector.modelRollouts,
    rollout.rolloutPeriodStartDate ≤ rollout.rolloutPeriodEndDate

theorem Ordered.sortedRollouts (ordered : Ordered selector) :
    ∀ rollout ∈ selector.sortedRollouts rolloutSort,
      rollout.rolloutPeriodStartDate ≤ rollout.rolloutPeriodEndDate :=
  fun rollout member =>
    ordered rollout ((rolloutSort.perm selector.modelRollouts).subset member)

theorem pairwise_sortedRollouts (selector : VidModelSelector) :
    (selector.sortedRollouts rolloutSort).Pairwise fun earlier later =>
      earlier.rolloutPeriodStartDate ≤ later.rolloutPeriodStartDate :=
  (rolloutSort.sorted selector.modelRollouts).imp fun notAfter => by
    simpa [compareModelRollouts] using notAfter

/-- The sorted rollouts with their positions. -/
def positionedRollouts (selector : VidModelSelector) :
    List (ModelRollout × ℕ) :=
  (selector.sortedRollouts rolloutSort).zipIdx

theorem map_fst_positionedRollouts :
    (selector.positionedRollouts rolloutSort).map Prod.fst =
      selector.sortedRollouts rolloutSort :=
  List.zipIdx_map_fst _ _

theorem Ordered.positionedRollouts (ordered : Ordered selector) :
    ∀ entry ∈ selector.positionedRollouts rolloutSort,
      entry.1.rolloutPeriodStartDate ≤ entry.1.rolloutPeriodEndDate := by
  intro entry member
  refine ordered.sortedRollouts rolloutSort entry.1 ?_
  rw [← map_fst_positionedRollouts]
  exact List.mem_map_of_mem member

theorem pairwise_positionedRollouts (selector : VidModelSelector) :
    (selector.positionedRollouts rolloutSort).Pairwise fun earlier later =>
      earlier.1.rolloutPeriodStartDate ≤ later.1.rolloutPeriodStartDate := by
  have sorted := selector.pairwise_sortedRollouts rolloutSort
  rw [← map_fst_positionedRollouts, List.pairwise_map] at sorted
  exact sorted

theorem positions_pairwise (selector : VidModelSelector) :
    (selector.positionedRollouts rolloutSort).Pairwise
      fun earlier later => earlier.2 < later.2 := by
  rw [← List.pairwise_map (f := Prod.snd) (R := fun i j => i < j),
    positionedRollouts, List.zipIdx_map_snd]
  exact List.pairwise_lt_range'

/-- The entry that sets the result is the specified one. -/
theorem settingEntry_eq (ordered : Ordered selector)
    (real : eventDateUtc < maxCivilDay) :
    settingEntry X eventId eventDateUtc
        (selector.sortedRollouts rolloutSort) =
      specifiedChoice
        (fun entry : ModelRollout × ℕ =>
          adopts X eventId eventDateUtc entry.1)
        (specifiedActive Prod.fst eventDateUtc
          (selector.positionedRollouts rolloutSort)) := by
  have activeEq := @activeEntries_eq _ _ Prod.fst eventDateUtc
    (selector.positionedRollouts rolloutSort)
    (ordered.positionedRollouts rolloutSort)
    (selector.pairwise_positionedRollouts rolloutSort)
  rw [settingEntry, ← activeEq]
  change (match activeEntries Prod.fst eventDateUtc
    (selector.positionedRollouts rolloutSort) with | [] => _ | _ :: _ => _) = _
  cases activeEntries Prod.fst eventDateUtc
      (selector.positionedRollouts rolloutSort) with
  | nil => rfl
  | cons first rest =>
    rw [foldl_eq_specifiedChoice]
    simp only [adopts, decide_eq_true_eq,
      calculatePercentageAdoption_eq real]

/-- The specified entries with positions are the specified rollouts. -/
theorem map_fst_specifiedActive (ordered : Ordered selector) :
    (specifiedActive Prod.fst eventDateUtc
        (selector.positionedRollouts rolloutSort)).map Prod.fst =
      specifiedActive id eventDateUtc
        (selector.sortedRollouts rolloutSort) := by
  rw [← activeEntries_eq _ (ordered.positionedRollouts rolloutSort)
      (selector.pairwise_positionedRollouts rolloutSort),
    ← @activeEntries_eq _ _ id _ _ (ordered.sortedRollouts rolloutSort)
      (selector.pairwise_sortedRollouts rolloutSort)]
  exact map_fst_activeEntries _ _

variable [LawfulTimeExternals]

/-- What a call returns is the release of the specified choice. -/
theorem getModelRelease_eq (ordered : Ordered selector)
    {InputFields : Type} {cache : LruCache}
    (reachable : ReachableCache X rolloutSort selector cache)
    {labelerInput : LabelerInput InputFields}
    (active : selector.isActive labelerInput.timestampUsec = true)
    {eventId : String} (eventIdEq : getEventId labelerInput = .ok eventId)
    (dateEq : timeUsecToCivilDay labelerInput.timestampUsec.toInt =
      eventDateUtc) :
    ∃ cache', selector.getModelRelease rolloutSort X labelerInput cache =
      .ok ((specifiedChoice (adopts X eventId eventDateUtc)
        (specifiedActive id eventDateUtc
          (selector.sortedRollouts rolloutSort))).map (·.modelRelease))
        cache' := by
  have real := (timeUsecToCivilDay_bounds labelerInput.timestampUsec).2.2
  obtain ⟨cache', run⟩ := selector.getModelRelease_of_reachable X rolloutSort
    reachable active eventIdEq
  refine ⟨cache', ?_⟩
  rw [run, settingEntry_eq X rolloutSort eventId ordered real,
    ← map_fst_specifiedActive rolloutSort ordered, ← specifiedChoice_map,
    Option.map_map, dateEq]
  rfl

/-- An active call returns no release exactly when there is no rollout or the
first one has not started.  Otherwise some rollouts are active, and the
release is that of the last of them whose percentage is above the scaled
fingerprint, or of the first of them. -/
theorem getModelRelease_spec {modelLine : ModelLine}
    {modelRollouts : List ModelRollout}
    (built : build modelLine modelRollouts = .ok selector)
    (ordered : ∀ rollout ∈ modelRollouts,
      rollout.rolloutPeriodStartDate ≤ rollout.rolloutPeriodEndDate)
    {InputFields : Type} {cache : LruCache}
    (reachable : ReachableCache X rolloutSort selector cache)
    {labelerInput : LabelerInput InputFields}
    (active : selector.isActive labelerInput.timestampUsec = true)
    {eventId : String} (eventIdEq : getEventId labelerInput = .ok eventId)
    (dateEq : timeUsecToCivilDay labelerInput.timestampUsec.toInt =
      eventDateUtc) :
    ∃ result cache',
      selector.getModelRelease rolloutSort X labelerInput cache =
        .ok result cache' ∧
      (result = none ↔ selector.sortedRollouts rolloutSort = [] ∨
        ∃ first ∈ (selector.sortedRollouts rolloutSort).head?,
          eventDateUtc < first.rolloutPeriodStartDate) ∧
      (result ≠ none →
        specifiedActive id eventDateUtc
            (selector.sortedRollouts rolloutSort) ≠ [] ∧
          result = (specifiedChoice (adopts X eventId eventDateUtc)
            (specifiedActive id eventDateUtc
              (selector.sortedRollouts rolloutSort))).map
                (·.modelRelease)) := by
  have rolloutsEq := modelRollouts_eq built
  have orderedSelector : Ordered selector := by rwa [Ordered, rolloutsEq]
  obtain ⟨cache', run⟩ := getModelRelease_eq X rolloutSort orderedSelector
    reachable active eventIdEq dateEq
  have sortedOrdered := orderedSelector.sortedRollouts rolloutSort
  have sorted := selector.pairwise_sortedRollouts rolloutSort
  refine ⟨_, cache', run, ?_, ?_⟩
  · cases sortedEq : selector.sortedRollouts rolloutSort with
    | nil => simp [specifiedActive, specifiedChoice]
    | cons first rest =>
      rw [sortedEq] at sortedOrdered sorted
      simp only [List.head?_cons, Option.mem_def, Option.some_inj,
        exists_eq_left', reduceCtorEq, false_or, Option.map_eq_none_iff]
      constructor
      · intro noChoice
        by_contra started
        obtain ⟨entry, -, headEq⟩ := @head?_specifiedActive _ _ id _ first rest
          sortedOrdered (not_lt.mp started)
        rw [specifiedChoice, headEq, Option.or_eq_none_iff] at noChoice
        simp at noChoice
      · intro early
        rw [@specifiedActive_eq_nil _ _ id _ first rest sorted early]
        rfl
  · intro someRelease
    refine ⟨fun nothingActive => someRelease ?_, rfl⟩
    rw [nothingActive]
    rfl

end Meets

/-! ## One selector -/

section Example

attribute [local instance] documentedTimes

/-- The order of the start dates. -/
def StartsNoLater (earlier later : ModelRollout) : Prop :=
  earlier.rolloutPeriodStartDate ≤ later.rolloutPeriodStartDate

instance : DecidableRel StartsNoLater :=
  fun _ _ => inferInstanceAs (Decidable (_ ≤ _))

instance : Std.Total StartsNoLater :=
  ⟨fun _ _ => le_total (α := ℤ) _ _⟩

instance : IsTrans ModelRollout StartsNoLater :=
  ⟨fun _ _ _ => le_trans (α := ℤ)⟩

/-- Insertion keeps rollouts that start on one day in their order. -/
def insertionRolloutSort : RolloutSort where
  sort := List.insertionSort StartsNoLater
  perm := List.perm_insertionSort _
  sorted := fun rollouts =>
    (List.pairwise_insertionSort StartsNoLater rollouts).imp fun noLater => by
      simpa [compareModelRollouts, StartsNoLater] using noLater

/-- A release for everyone. -/
def instantRollout : ModelRollout :=
  ⟨"modelLines/1/modelRollouts/1", .instantRolloutDate ⟨1970, 1, 1⟩, none,
    "modelReleases/r1"⟩

/-- A release that reaches everyone on the third day and is frozen then. -/
def frozenRollout : ModelRollout :=
  ⟨"modelLines/1/modelRollouts/2",
    .gradualRolloutPeriod ⟨1970, 1, 2⟩ ⟨1970, 1, 3⟩, some ⟨1970, 1, 3⟩,
    "modelReleases/r2"⟩

/-- Midnight of the third day. -/
def thirdDayInput : LabelerInput Unit where
  eventId := some ⟨some "5rt0w5bc00004916", none⟩
  profileInfo := none
  timestampUsec := 172800000000
  rankAssignments := []
  enableDebugTrace := false
  others := ()

/-- The fingerprints of the two releases with that id: `2 ^ 63 - 52` for the
second one. -/
def thirdDayExternals : Externals :=
  { Externals.constant with
    fingerprint64 := fun bytes =>
      if bytes.data[15]? = some 50 then 9223372036854775756
      else 4508282278637519498 }

/-- A selector with an instant rollout and one that is frozen. -/
def thirdDaySelector : VidModelSelector :=
  ⟨⟨"modelLines/1", none, none⟩, [instantRollout, frozenRollout]⟩

theorem getModelRelease_spec_thirdDay :
    ∃ result cache', thirdDaySelector.getModelRelease insertionRolloutSort
        thirdDayExternals thirdDayInput (.new kCacheSize) =
          .ok result cache' ∧
      (result = none ↔
        thirdDaySelector.sortedRollouts insertionRolloutSort = [] ∨
          ∃ first ∈ (thirdDaySelector.sortedRollouts
              insertionRolloutSort).head?,
            2 < first.rolloutPeriodStartDate) := by
  obtain ⟨result, cache', run, noneIff, -⟩ := getModelRelease_spec
    thirdDayExternals insertionRolloutSort
    (show build thirdDaySelector.modelLine thirdDaySelector.modelRollouts =
      .ok thirdDaySelector from rfl) (by decide) .new
    (show thirdDaySelector.isActive thirdDayInput.timestampUsec = true from rfl)
    (show getEventId thirdDayInput = .ok "5rt0w5bc00004916" from rfl)
    (show timeUsecToCivilDay thirdDayInput.timestampUsec.toInt = 2 by decide)
  exact ⟨result, cache', run, noneIff⟩

/-- The selector gives the event of the third day the first release. -/
theorem thirdDay_run :
    ∃ cache', thirdDaySelector.getModelRelease insertionRolloutSort
      thirdDayExternals thirdDayInput (.new kCacheSize) =
        .ok (some "modelReleases/r1") cache' := by
  have choice : (settingEntry thirdDayExternals "5rt0w5bc00004916" 2
      (thirdDaySelector.sortedRollouts insertionRolloutSort)).map
        (·.1.modelRelease) = some "modelReleases/r1" := by decide
  rw [← choice]
  exact getModelRelease_of_reachable thirdDayExternals insertionRolloutSort
    _ .new rfl rfl

/-! ## Exact arithmetic -/

/-- The reduced id as a rational number. -/
def exactReducedEventId (X : Externals) (modelRelease eventId : String) : ℚ :=
  |((X.fingerprint (modelRelease ++ eventId)).toInt64.toInt : ℚ)| /
    Int64.maxValue.toInt

/-- The percentage of adoption as a rational number. -/
def exactPercentage (eventDateUtc : ℤ) (rollout : ModelRollout) : ℚ :=
  let startDate := rollout.rolloutPeriodStartDate
  let endDate := rollout.rolloutPeriodEndDate
  if startDate = endDate then 11 / 10
  else
    (percentageDate eventDateUtc rollout - startDate : ℤ) /
      (endDate - startDate : ℤ)

/-- The exact reduced id is below the exact percentage. -/
def exactlyAdopts (X : Externals) (eventId : String) (eventDateUtc : ℤ)
    (rollout : ModelRollout) : Bool :=
  exactReducedEventId X rollout.modelRelease eventId <
    exactPercentage eventDateUtc rollout

/-- In exact arithmetic the second release reaches this event too, but its
scaled fingerprint is rounded up to one, and the selector returns the first. -/
theorem exact_choice_differs :
    build thirdDaySelector.modelLine thirdDaySelector.modelRollouts =
        .ok thirdDaySelector ∧
      Ordered thirdDaySelector ∧
      thirdDaySelector.isActive thirdDayInput.timestampUsec = true ∧
      getEventId thirdDayInput = .ok "5rt0w5bc00004916" ∧
      timeUsecToCivilDay thirdDayInput.timestampUsec.toInt = 2 ∧
      (∃ cache', thirdDaySelector.getModelRelease insertionRolloutSort
        thirdDayExternals thirdDayInput (.new kCacheSize) =
          .ok (some "modelReleases/r1") cache') ∧
      (specifiedChoice
        (exactlyAdopts thirdDayExternals "5rt0w5bc00004916" 2)
        (specifiedActive id 2
          (thirdDaySelector.sortedRollouts insertionRolloutSort))).map
            (·.modelRelease) = some "modelReleases/r2" := by
  refine ⟨rfl, by unfold Ordered; decide, rfl, rfl, by decide, thirdDay_run, ?_⟩
  · have fingerprintEq : (thirdDayExternals.fingerprint ("modelReleases/r2" ++
        "5rt0w5bc00004916")).toInt64.toInt = 9223372036854775756 := by decide
    have percentageEq : exactPercentage 2 frozenRollout = 1 := by
      have dates : frozenRollout.rolloutPeriodStartDate = 1 ∧
          frozenRollout.rolloutPeriodEndDate = 2 ∧
            percentageDate 2 frozenRollout = 2 := by decide
      simp [exactPercentage, dates]
    have adopts : exactlyAdopts thirdDayExternals "5rt0w5bc00004916" 2
        frozenRollout = true := by
      have maxEq : Int64.maxValue.toInt = 9223372036854775807 := by decide
      rw [exactlyAdopts, percentageEq, exactReducedEventId,
        show frozenRollout.modelRelease = "modelReleases/r2" from rfl,
        fingerprintEq, maxEq]
      norm_num
    have activeEq : specifiedActive id 2
        (thirdDaySelector.sortedRollouts insertionRolloutSort) =
          [instantRollout] ++ [frozenRollout] := rfl
    rw [activeEq, specifiedChoice, List.filter_append,
      List.filter_cons_of_pos adopts, List.filter_nil,
      List.getLast?_append]
    rfl

end Example

end VidModelSelector

end VirtualPeople.Selector
