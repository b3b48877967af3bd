import VirtualPeople.Binary64.Arithmetic
import VirtualPeople.Messages
import VirtualPeople.Selector.CivilDay
import VirtualPeople.Selector.LruCache

/-!
# The model selector

`VidModelSelector` picks a model release for an event: the percentages of the
active rollouts on the day of the event come from a cache, and a fingerprint of
the release and the event id decides which of them adopt the event.
-/

namespace VirtualPeople.Selector

open Binary64 (ofInt)
open TimeExternals (maxCivilDay timestampToMicroseconds toDoubleSeconds)

/-! ## Model lines and rollouts -/

/-- The fields of a model line that the selector reads. -/
structure ModelLine where
  name : String
  activeStartTime : Option Timestamp
  activeEndTime : Option Timestamp

/-- How the release of a rollout is introduced. -/
inductive RolloutDeployPeriod
  | gradualRolloutPeriod (startDate endDate : Date)
  | instantRolloutDate (date : Date)
  | notSet

/-- The fields of a model rollout that the selector reads. -/
structure ModelRollout where
  name : String
  rolloutDeployPeriod : RolloutDeployPeriod
  rolloutFreezeDate : Option Date
  modelRelease : String

namespace ModelRollout

variable [TimeExternals] (rollout : ModelRollout)

/-- The instant date, all zeros when it is not set. -/
def instantRolloutDate : Date :=
  match rollout.rolloutDeployPeriod with
  | .instantRolloutDate date => date
  | _ => ⟨0, 0, 0⟩

/-- The first day of the rollout. -/
def rolloutPeriodStartDate : ℤ :=
  match rollout.rolloutDeployPeriod with
  | .gradualRolloutPeriod startDate _ => startDate.toCivilDay
  | _ => rollout.instantRolloutDate.toCivilDay

/-- The last day of the rollout. -/
def rolloutPeriodEndDate : ℤ :=
  match rollout.rolloutDeployPeriod with
  | .gradualRolloutPeriod _ endDate => endDate.toCivilDay
  | _ => rollout.instantRolloutDate.toCivilDay

/-- The freeze date, or the last of all days. -/
def freezeDate : ℤ :=
  match rollout.rolloutFreezeDate with
  | some date => date.toCivilDay
  | none => maxCivilDay

end ModelRollout

/-! ## The selector -/

/-- A selector for the rollouts of one model line. -/
structure VidModelSelector where
  modelLine : ModelLine
  modelRollouts : List ModelRollout

section Sorting

variable [TimeExternals]

/-- The comparison of two rollouts, by their start dates. -/
def compareModelRollouts (lhs rhs : ModelRollout) : Bool :=
  lhs.rolloutPeriodStartDate < rhs.rolloutPeriodStartDate

/-- `std::sort` with that comparison: a sorted permutation, whatever the order
of rollouts that start on one day. -/
structure RolloutSort where
  sort : List ModelRollout → List ModelRollout
  perm : ∀ rollouts, (sort rollouts).Perm rollouts
  sorted : ∀ rollouts, (sort rollouts).Pairwise
    fun earlier later => compareModelRollouts later earlier = false

end Sorting

/-- `kCacheSize`. -/
def kCacheSize : ℕ :=
  60

/-- `kUpperBoundPercentageAdoption`. -/
def kUpperBoundPercentageAdoption : Float :=
  1.1

/-- The text from the first place where the marker occurs on, marker
included. -/
def findMarker (marker : List Char) : List Char → Option (List Char)
  | [] => if marker = [] then some [] else none
  | first :: rest =>
    if marker.isPrefixOf (first :: rest) then some (first :: rest)
    else findMarker marker rest

/-- The model line id of a resource name, empty when there is none. -/
def readModelLine (input : String) : String :=
  let modelLineMarker := "modelLines/".toList
  let modelRolloutMarker := "/modelRollouts/".toList
  match findMarker modelLineMarker input.toList with
  | some found =>
    let start := found.drop modelLineMarker.length
    match findMarker modelRolloutMarker start with
    | some tail => String.ofList (start.take (start.length - tail.length))
    | none => String.ofList start
  | none => ""

namespace VidModelSelector

/-- `VidModelSelector::Build`. -/
def build (modelLine : ModelLine) (modelRollouts : List ModelRollout) :
    Result VidModelSelector :=
  let modelLineId := readModelLine modelLine.name
  if modelLineId = "" then
    throw (invalidArgument
      "ModelLine resource name is either unspecified or invalid")
  else if modelRollouts.any fun modelRollout =>
      readModelLine modelRollout.name ≠ modelLineId then
    throw (invalidArgument
      "ModelRollouts must be parented by the provided ModelLine")
  else return ⟨modelLine, modelRollouts⟩

section Percentages

variable [TimeExternals]

/-- The difference of two days, in seconds; every day of UTC is as long. -/
def getTimeDifferenceInSeconds (date1 date2 : ℤ) : Float :=
  toDoubleSeconds ((date2 - date1) * 86400)

/-- `CalculatePercentageAdoption`. -/
def calculatePercentageAdoption (eventDateUtc : ℤ) (rollout : ModelRollout) :
    Float :=
  let freezeDate := rollout.freezeDate
  let startDate := rollout.rolloutPeriodStartDate
  let endDate := rollout.rolloutPeriodEndDate
  if startDate = endDate then kUpperBoundPercentageAdoption
  else if eventDateUtc ≥ freezeDate then
    getTimeDifferenceInSeconds startDate freezeDate /
      getTimeDifferenceInSeconds startDate endDate
  else
    getTimeDifferenceInSeconds startDate eventDateUtc /
      getTimeDifferenceInSeconds startDate endDate

/-- The loop from the last rollout to the first, up to the first completed
rollout without a freeze date.  The list may hold anything that has a
rollout; the selector runs it on the rollouts themselves. -/
def collectActive {α : Type} (rolloutOf : α → ModelRollout)
    (eventDateUtc : ℤ) : List α → List α
  | [] => []
  | entry :: rest =>
    let rollout := rolloutOf entry
    if eventDateUtc ≥ rollout.rolloutPeriodEndDate then
      if rollout.rolloutFreezeDate.isNone then [entry]
      else entry :: collectActive rolloutOf eventDateUtc rest
    else if eventDateUtc ≥ rollout.rolloutPeriodStartDate then
      entry :: collectActive rolloutOf eventDateUtc rest
    else collectActive rolloutOf eventDateUtc rest

/-- The active entries of a sorted list. -/
def activeEntries {α : Type} (rolloutOf : α → ModelRollout)
    (eventDateUtc : ℤ) (sortedRollouts : List α) : List α :=
  match sortedRollouts with
  | [] => []
  | first :: _ =>
    if eventDateUtc < (rolloutOf first).rolloutPeriodStartDate then []
    else (collectActive rolloutOf eventDateUtc sortedRollouts.reverse).reverse

end Percentages

section Cache

variable [TimeExternals] (rolloutSort : RolloutSort)
  (selector : VidModelSelector)

/-- The rollouts by their first days. -/
def sortedRollouts : List ModelRollout :=
  rolloutSort.sort selector.modelRollouts

/-- `RetrieveActiveRollouts`. -/
def retrieveActiveRollouts (eventDateUtc : ℤ) : List ModelRollout :=
  activeEntries id eventDateUtc (selector.sortedRollouts rolloutSort)

/-- `CalculatePercentages`: the releases of the active rollouts. -/
def calculatePercentages (eventDateUtc : ℤ) : List ModelReleasePercentile :=
  (selector.retrieveActiveRollouts rolloutSort eventDateUtc).map
    fun activeRollout =>
      ⟨calculatePercentageAdoption eventDateUtc activeRollout,
        activeRollout.modelRelease⟩

/-- `ReadFromCache`: the entry of the day, computed when it is missing. -/
def readFromCache (eventDateUtc : ℤ) :
    Step LruCache (List ModelReleasePercentile) := do
  let cache ← get
  let (cacheValue, cache) := cache.get eventDateUtc
  set cache
  match cacheValue with
  | some percentages => return percentages
  | none =>
    let percentages := selector.calculatePercentages rolloutSort eventDateUtc
    let cache ← Step.lift (cache.add eventDateUtc percentages)
    set cache
    return percentages

end Cache

/-- The user infos of a profile in the order in which they are tried. -/
def userInfos (profileInfo : ProfileInfo) : List (Option UserInfo) :=
  [profileInfo.emailUserInfo, profileInfo.phoneUserInfo,
    profileInfo.loggedInIdUserInfo, profileInfo.loggedOutIdUserInfo,
    profileInfo.proprietaryIdSpace1UserInfo,
    profileInfo.proprietaryIdSpace2UserInfo,
    profileInfo.proprietaryIdSpace3UserInfo,
    profileInfo.proprietaryIdSpace4UserInfo,
    profileInfo.proprietaryIdSpace5UserInfo,
    profileInfo.proprietaryIdSpace6UserInfo,
    profileInfo.proprietaryIdSpace7UserInfo,
    profileInfo.proprietaryIdSpace8UserInfo,
    profileInfo.proprietaryIdSpace9UserInfo,
    profileInfo.proprietaryIdSpace10UserInfo]

/-- An input with a profile gets its id from there, or not at all. -/
def getEventId {InputFields : Type} (labelerInput : LabelerInput InputFields) :
    Result String :=
  let missing := invalidArgument
    "Neither user_id nor event_id was found in the LabelerInput."
  match labelerInput.profileInfo with
  | some profileInfo =>
    match (userInfos profileInfo).findSome? (·.bind (·.userId)) with
    | some userId => return userId
    | none => throw missing
  | none =>
    match labelerInput.eventId with
    | some eventId => return eventId.id.getD ""
    | none => throw missing

/-- `reduced_event_id`: the fingerprint of a release and an event id as a
signed number, scaled to the unit interval. -/
def reducedEventId (X : Externals) (modelRelease eventId : String) : Float :=
  let eventFingerprint := (X.fingerprint (modelRelease ++ eventId)).toInt64
  (ofInt eventFingerprint.toInt / ofInt Int64.maxValue.toInt).abs

/-- The loop over the percentages, which remembers the last adopting release. -/
def selectModelRelease (X : Externals) (eventId : String)
    (percentages : List ModelReleasePercentile) (modelRelease : String) :
    String :=
  percentages.foldl
    (fun selected percentage =>
      if reducedEventId X percentage.modelReleaseResourceKey eventId <
          percentage.endPercentile then
        percentage.modelReleaseResourceKey
      else selected)
    modelRelease

section Release

variable [TimeExternals] (rolloutSort : RolloutSort)
  (selector : VidModelSelector)

/-- The event is inside of the active range of the model line. -/
def isActive (timestampUsec : Int64) : Bool :=
  let activeStartTime :=
    timestampToMicroseconds (selector.modelLine.activeStartTime.getD ⟨0, 0⟩)
  activeStartTime ≤ timestampUsec.toInt &&
    match selector.modelLine.activeEndTime with
    | some activeEndTime =>
      timestampUsec.toInt < timestampToMicroseconds activeEndTime
    | none => true

/-- The release of an event, if the model line is active at its time. -/
def getModelRelease (X : Externals) {InputFields : Type}
    (labelerInput : LabelerInput InputFields) :
    Step LruCache (Option String) :=
  if selector.isActive labelerInput.timestampUsec then do
    let eventDateUtc := timeUsecToCivilDay labelerInput.timestampUsec.toInt
    let percentages ← selector.readFromCache rolloutSort eventDateUtc
    match percentages with
    | [] => return none
    | first :: _ =>
      let eventId ← Step.lift (getEventId labelerInput)
      return some (selectModelRelease X eventId percentages
        first.modelReleaseResourceKey)
  else return none

end Release

end VidModelSelector

end VirtualPeople.Selector
