import VirtualPeople.Selector.Rollouts
import VirtualPeople.SharedObject

/-!
# Transparency of the selector's cache

Threads share one selector.  Of a call of `GetModelRelease` only the read from
the cache runs under the lock; what comes before and after it depends on the
input and on what was read.  In every interleaving of such reads each call gets
the percentages that it would have calculated itself.
-/

namespace VirtualPeople.Selector

namespace VidModelSelector

/-! ## The parts of a call -/

variable {InputFields : Type}

/-- What a call returns for the percentages it has read. -/
def releaseOf (X : Externals) (labelerInput : LabelerInput InputFields) :
    Option (List ModelReleasePercentile) → Result (Option String)
  | none => return none
  | some [] => return none
  | some (first :: rest) => do
    let eventId ← getEventId labelerInput
    return some (selectModelRelease X eventId (first :: rest)
      first.modelReleaseResourceKey)

section Reads

variable [TimeExternals] (X : Externals) (rolloutSort : RolloutSort)
  (selector : VidModelSelector)

/-- The UTC date of an event. -/
def eventDateUtc (labelerInput : LabelerInput InputFields) : ℤ :=
  timeUsecToCivilDay labelerInput.timestampUsec.toInt

/-- The read from the cache, in the active range of the model line. -/
def readPercentages (labelerInput : LabelerInput InputFields) :
    Step LruCache (Option (List ModelReleasePercentile)) :=
  if selector.isActive labelerInput.timestampUsec then do
    let percentages ← selector.readFromCache rolloutSort
      (eventDateUtc labelerInput)
    return some percentages
  else return none

/-- What a read would give if it called `CalculatePercentages` directly. -/
def directPercentages (labelerInput : LabelerInput InputFields) :
    Option (List ModelReleasePercentile) :=
  if selector.isActive labelerInput.timestampUsec then
    some (selector.calculatePercentages rolloutSort (eventDateUtc labelerInput))
  else none

/-- A call reads the percentages and then leaves the cache alone. -/
theorem getModelRelease_eq_read (labelerInput : LabelerInput InputFields) :
    selector.getModelRelease rolloutSort X labelerInput =
      selector.readPercentages rolloutSort labelerInput >>= fun percentages =>
        Step.lift (releaseOf X labelerInput percentages) := by
  unfold getModelRelease readPercentages
  split_ifs
  · rw [bind_assoc]
    refine bind_congr fun percentages => ?_
    rw [pure_bind]
    cases percentages with
    | nil => rfl
    | cons first rest =>
      unfold releaseOf
      cases getEventId labelerInput <;> rfl
  · rw [pure_bind]
    rfl

/-! ## Interleaved calls -/

/-- The cache agrees with the selector, and has the size it was made with. -/
def CacheAgrees (cache : LruCache) : Prop :=
  cache.Holds (selector.calculatePercentages rolloutSort) ∧
    cache.cacheSize = kCacheSize

theorem cacheSize_readFromCache {cache final : LruCache} {date : ℤ}
    {percentages : List ModelReleasePercentile}
    (run : selector.readFromCache rolloutSort date cache =
      .ok percentages final) : final.cacheSize = cache.cacheSize := by
  unfold readFromCache at run
  rw [Step.run_bind_of_ok _ (Step.run_get cache)] at run
  rw [← LruCache.cacheSize_get cache date]
  generalize cache.get date = got at run ⊢
  obtain ⟨cacheValue, used⟩ := got
  simp only at run
  rw [Step.run_bind_of_ok _ (Step.run_set used cache)] at run
  cases cacheValue with
  | some percentages =>
    injection run with _ sameCache
    rw [sameCache]
  | none =>
    simp only [Step.run_bind_eq_ok_iff, Step.run_lift_eq_ok_iff, Step.run_set,
      Step.run_pure, EStateM.Result.ok.injEq] at run
    obtain ⟨added, _, ⟨addedEq, -⟩, _, _, ⟨-, rfl⟩, -, rfl⟩ := run
    exact LruCache.cacheSize_add addedEq

/-- A read keeps the agreement, never fails, and gives the calculated
percentages. -/
theorem CacheAgrees.readPercentages {cache : LruCache}
    (agrees : selector.CacheAgrees rolloutSort cache)
    (labelerInput : LabelerInput InputFields) :
    selector.CacheAgrees rolloutSort (Step.final
        (selector.readPercentages rolloutSort labelerInput cache)) ∧
      Step.outcome (selector.readPercentages rolloutSort labelerInput cache) =
        .ok (selector.directPercentages rolloutSort labelerInput) := by
  unfold VidModelSelector.readPercentages directPercentages
  split_ifs
  · obtain ⟨cache', holds, readEq⟩ := selector.readFromCache_run rolloutSort
      (eventDateUtc labelerInput) agrees.1
    have size := selector.cacheSize_readFromCache rolloutSort readEq
    rw [Step.run_bind_of_ok _ readEq]
    exact ⟨⟨holds, size.trans agrees.2⟩, rfl⟩
  · exact ⟨agrees, rfl⟩

end Reads

end VidModelSelector

/-- The map and the list of a cache agree: the list names each key of the map
once, each value is the calculated one, and there is room for all of them. -/
structure LruCache.IsConsistent (calculate : ℤ → List ModelReleasePercentile)
    (cache : LruCache) : Prop where
  accessOrder_nodup : cache.accessOrder.Nodup
  mem_accessOrder_iff : ∀ key,
    key ∈ cache.accessOrder ↔ ∃ data, cache.find key = some data
  find_eq : ∀ key data, cache.find key = some data → data = calculate key
  length_le : cache.cacheData.length ≤ kCacheSize

theorem LruCache.Holds.isConsistent
    {calculate : ℤ → List ModelReleasePercentile} {cache : LruCache}
    (holds : cache.Holds calculate) (size : cache.cacheSize = kCacheSize) :
    cache.IsConsistent calculate where
  accessOrder_nodup := holds.order.nodup_iff.mpr holds.nodup
  mem_accessOrder_iff key := by
    rw [holds.order.mem_iff]
    constructor
    · intro member
      cases found : cache.find key with
      | none => exact absurd member (find_eq_none found)
      | some data => exact ⟨data, rfl⟩
    · rintro ⟨data, found⟩
      unfold find at found
      rw [List.lookup_eq_some_iff] at found
      obtain ⟨before, after, split, -⟩ := found
      rw [split]
      simp
  find_eq _ _ := holds.find_eq
  length_le := size ▸ holds.bounded

namespace VidModelSelector

section Calls

variable [TimeExternals] (X : Externals) (rolloutSort : RolloutSort)
  (selector : VidModelSelector) {InputFields : Type}

/-- In every interleaving of calls each one returns what it would without the
cache, and the cache stays consistent and finds a key whenever it evicts. -/
theorem cache_transparent
    {shared : SharedObject LruCache (LabelerInput InputFields)
      (Option (List ModelReleasePercentile))}
    (reaches : SharedObject.Reaches (selector.readPercentages rolloutSort)
      (.start (.new kCacheSize)) shared) :
    (∀ labelerInput reply, .answered labelerInput reply ∈ shared.calls →
      reply >>= releaseOf X labelerInput =
        releaseOf X labelerInput
          (selector.directPercentages rolloutSort labelerInput)) ∧
    shared.state.IsConsistent (selector.calculatePercentages rolloutSort) ∧
    ∀ date, ∃ cache, selector.readFromCache rolloutSort date shared.state =
      .ok (selector.calculatePercentages rolloutSort date) cache := by
  have initial : selector.CacheAgrees rolloutSort (.new kCacheSize) :=
    ⟨LruCache.holds_new (by decide), rfl⟩
  obtain ⟨⟨holds, size⟩, replies⟩ :=
    (SharedObject.Answers.start initial).reaches
      (fun labelerInput _ agrees =>
        agrees.readPercentages rolloutSort selector labelerInput) reaches
  refine ⟨fun labelerInput reply member => ?_, holds.isConsistent size,
    fun date => ?_⟩
  · rw [replies labelerInput reply member]
    rfl
  · obtain ⟨cache, -, readEq⟩ :=
      selector.readFromCache_run rolloutSort date holds
    exact ⟨cache, readEq⟩

end Calls

section Example

attribute [local instance] documentedTimes

/-- A call that begins before another one and reads after it. -/
theorem cache_transparent_thirdDay :
    ∃ shared : SharedObject LruCache (LabelerInput Unit)
        (Option (List ModelReleasePercentile)),
      SharedObject.Reaches
        (thirdDaySelector.readPercentages insertionRolloutSort)
        (.start (.new kCacheSize)) shared ∧
      shared.calls.length = 2 ∧
      shared.state.IsConsistent
        (thirdDaySelector.calculatePercentages insertionRolloutSort) := by
  have reaches := ((((Relation.ReflTransGen.refl.tail
    (SharedObject.Moves.begin (.new kCacheSize) [] thirdDayInput)).tail
    (.begin _ _ thirdDayInput)).tail
    (.run _ [.waiting thirdDayInput] [] thirdDayInput)).tail
    (.run _ [] [_] thirdDayInput) :
      SharedObject.Reaches
        (thirdDaySelector.readPercentages insertionRolloutSort) _ _)
  exact ⟨_, reaches, rfl, (cache_transparent thirdDayExternals
    insertionRolloutSort thirdDaySelector reaches).2.1⟩

end Example

end VidModelSelector

end VirtualPeople.Selector
