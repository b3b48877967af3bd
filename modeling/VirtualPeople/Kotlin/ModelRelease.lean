import VirtualPeople.Kotlin.EventId
import VirtualPeople.Kotlin.VidModelSelector
import VirtualPeople.RecencyMap
import VirtualPeople.StableSort

/-!
# The model selector, in Kotlin

Dates are converted when they are used, and a date that does not exist fails
the call that reaches it.  The percentages of a day are kept in a map by the
order of access, and only when all of them could be calculated.
-/

namespace VirtualPeople.Kotlin

open Binary64 (ofInt)
open Selector (Date ModelLine ModelReleasePercentile ModelRollout gregorianDay)

/-- What the selector calls from outside of the repository. -/
structure SelectorExternals where
  /-- `ResourceNameParser(pattern).parseIdSegments(resourceName)`: the ids of
  the name by the names of the pattern, if the name matches it. -/
  parseIdSegments (pattern resourceName : String) :
    Option (List (String × String))
  /-- `Date.toLocalDate`, in days since the epoch. -/
  toLocalDate (date : Date) : Result ℤ

/-! ## Resource keys -/

/-- The variables of the patterns of resource names. -/
inductive IdVariable
  | modelProvider
  | modelSuite
  | modelLine
  | modelRollout
  deriving DecidableEq

/-- `IdVariable.valueOf`. -/
def IdVariable.valueOf (name : String) : Result IdVariable :=
  match name with
  | "MODEL_PROVIDER" => return .modelProvider
  | "MODEL_SUITE" => return .modelSuite
  | "MODEL_LINE" => return .modelLine
  | "MODEL_ROLLOUT" => return .modelRollout
  | _ => throw (.illegalArgument ("No enum constant " ++ name))

/-- The ids in the name of a model line. -/
structure ModelLineKey where
  modelProviderId : String
  modelSuiteId : String
  modelLineId : String
  deriving DecidableEq

/-- The ids in the name of a model rollout. -/
structure ModelRolloutKey where
  modelProviderId : String
  modelSuiteId : String
  modelLineId : String
  modelRolloutId : String
  deriving DecidableEq

/-- The pattern of the names of model lines. -/
def modelLinePattern : String :=
  "modelProviders/{model_provider}/modelSuites/{model_suite}/" ++
    "modelLines/{model_line}"

/-- The pattern of the names of model rollouts. -/
def modelRolloutPattern : String :=
  "modelProviders/{model_provider}/modelSuites/{model_suite}/" ++
    "modelLines/{model_line}/modelRollouts/{model_rollout}"

section Keys

variable (K : SelectorExternals) (pattern resourceName : String)

/-- The values of the variables of the pattern, if the name matches it. -/
def parseIdVars : Result (Option (List (IdVariable × String))) :=
  match K.parseIdSegments pattern resourceName with
  | some segments => do
    let idVars ← segments.mapM fun (key, id) => do
      let variableName ← IdVariable.valueOf key.toUpper
      return (variableName, id)
    return some idVars
  | none => return none

/-- `Map.getValue`, where a later entry replaces an earlier one. -/
def getValue (idVars : List (IdVariable × String)) (key : IdVariable) :
    Result String :=
  match idVars.reverse.lookup key with
  | some id => return id
  | none => throw .outOfBounds

/-- `ModelLineKey.fromName`. -/
def ModelLineKey.fromName : Result (Option ModelLineKey) := do
  let idVars ← parseIdVars K modelLinePattern resourceName
  match idVars with
  | some idVars => do
    let modelProviderId ← getValue idVars .modelProvider
    let modelSuiteId ← getValue idVars .modelSuite
    let modelLineId ← getValue idVars .modelLine
    return some ⟨modelProviderId, modelSuiteId, modelLineId⟩
  | none => return none

/-- `ModelRolloutKey.fromName`. -/
def ModelRolloutKey.fromName : Result (Option ModelRolloutKey) := do
  let idVars ← parseIdVars K modelRolloutPattern resourceName
  match idVars with
  | some idVars => do
    let modelProviderId ← getValue idVars .modelProvider
    let modelSuiteId ← getValue idVars .modelSuite
    let modelLineId ← getValue idVars .modelLine
    let modelRolloutId ← getValue idVars .modelRollout
    return some ⟨modelProviderId, modelSuiteId, modelLineId, modelRolloutId⟩
  | none => return none

end Keys

/-! ## Rollouts -/

section Rollouts

variable (K : SelectorExternals) (eventDateUtc : ℤ) (rollout : ModelRollout)

/-- `UPPER_BOUND_PERCENTAGE_ADOPTION`. -/
def upperBoundPercentageAdoption : Float :=
  1.1

/-- `LocalDate.MAX` -/
def localDateMax : ℤ :=
  gregorianDay 999999999 12 31

/-- The first day of the rollout. -/
def rolloutPeriodStartDate : Result ℤ :=
  match rollout.rolloutDeployPeriod with
  | .gradualRolloutPeriod startDate _ => K.toLocalDate startDate
  | _ => K.toLocalDate rollout.instantRolloutDate

/-- The rollout with the key that it is sorted by. -/
def datedRollout : Result (ℤ × ModelRollout) := do
  let startDate ← rolloutPeriodStartDate K rollout
  return (startDate, rollout)

/-- The last day of the rollout. -/
def rolloutPeriodEndDate : Result ℤ :=
  match rollout.rolloutDeployPeriod with
  | .gradualRolloutPeriod _ endDate => K.toLocalDate endDate
  | _ => K.toLocalDate rollout.instantRolloutDate

/-- The freeze date, or the last of all days. -/
def rolloutFreezeDate : Result ℤ :=
  match rollout.rolloutFreezeDate with
  | some date => K.toLocalDate date
  | none => return localDateMax

/-- `ChronoUnit.DAYS.between(date1, date2).toDouble()` -/
def daysBetween (date1 date2 : ℤ) : Float :=
  ofInt (date2 - date1)

/-- `calculatePercentageAdoption`. -/
def calculatePercentageAdoption : Result Float := do
  let freezeDate ← rolloutFreezeDate K rollout
  let startDate ← rolloutPeriodStartDate K rollout
  let endDate ← rolloutPeriodEndDate K rollout
  return if startDate = endDate then upperBoundPercentageAdoption
    else if eventDateUtc ≥ freezeDate then
      daysBetween startDate freezeDate / daysBetween startDate endDate
    else daysBetween startDate eventDateUtc / daysBetween startDate endDate

/-- The loop over the rollouts from the last to the first. -/
def collectActive : List ModelRollout → Result (List ModelRollout)
  | [] => return []
  | rollout :: rest => do
    let endDate ← rolloutPeriodEndDate K rollout
    if eventDateUtc ≥ endDate then
      if rollout.rolloutFreezeDate.isNone then return [rollout]
      else
        let active ← collectActive rest
        return rollout :: active
    else
      let startDate ← rolloutPeriodStartDate K rollout
      let active ← collectActive rest
      return if eventDateUtc ≥ startDate then rollout :: active else active

end Rollouts

/-! ## The selector -/

/-- A selector for the rollouts of one model line. -/
structure VidModelSelector where
  modelLine : ModelLine
  rollouts : List ModelRollout

/-- `CACHE_SIZE`. -/
def cacheSize : ℕ :=
  60

/-- The percentages of the days, by the order of their access. -/
abbrev ReleaseCache :=
  RecencyMap ℤ (List ModelReleasePercentile) cacheSize

namespace VidModelSelector

open Selector.VidModelSelector (selectModelRelease)

variable (K : SelectorExternals)

/-- A rollout has to have the id that the model line has. -/
def checkRollout (modelLineId : String) (rollout : ModelRollout) :
    Result Unit := do
  let modelRolloutKey ← ModelRolloutKey.fromName K rollout.name
  if some modelLineId ≠ modelRolloutKey.map (·.modelLineId) then
    throw (.illegalArgument
      "ModelRollouts must be parented by the provided ModelLine.")

/-- `VidModelSelector` as constructed: the names are parsed and compared. -/
def build (modelLine : ModelLine) (rollouts : List ModelRollout) :
    Result VidModelSelector := do
  let modelLineKey ← ModelLineKey.fromName K modelLine.name
  match modelLineKey with
  | some modelLineKey => do
    rollouts.forM (checkRollout K modelLineKey.modelLineId)
    return ⟨modelLine, rollouts⟩
  | none =>
    throw (.illegalArgument
      "ModelLine resource name is either unspecified or invalid")

variable (selector : VidModelSelector)

/-- `sortedBy` with the start date as the key.  Which of several dates that do
not exist it fails on is left open. -/
def sortedRollouts : Result (List ModelRollout) := do
  let datedRollouts ← selector.rollouts.mapM (datedRollout K)
  return (StableSort.sortBy Prod.fst datedRollouts).map Prod.snd

/-- `retrieveActiveRollouts`: those that the event is in, back to one that has
ended for good. -/
def retrieveActiveRollouts (eventDateUtc : ℤ) : Result (List ModelRollout) := do
  let sortedRollouts ← selector.sortedRollouts K
  match sortedRollouts with
  | [] => return []
  | first :: _ => do
    let firstRolloutPeriodStartDate ← rolloutPeriodStartDate K first
    if eventDateUtc < firstRolloutPeriodStartDate then return []
    else
      let activeRollouts ← collectActive K eventDateUtc sortedRollouts.reverse
      return activeRollouts.reverse

/-- `calculatePercentages`: the releases of the active rollouts. -/
def calculatePercentages (eventDateUtc : ℤ) :
    Result (List ModelReleasePercentile) := do
  let activeRollouts ← selector.retrieveActiveRollouts K eventDateUtc
  activeRollouts.mapM fun activeRollout => do
    let percentage ← calculatePercentageAdoption K eventDateUtc activeRollout
    return ⟨percentage, activeRollout.modelRelease⟩

/-- `readFromCache`: the entry of the day, computed when it is missing. -/
def readFromCache (eventDateUtc : ℤ) :
    Step ReleaseCache (List ModelReleasePercentile) := do
  let lruCache ← get
  match lruCache.get eventDateUtc with
  | (some percentages, lruCache) => do
    set lruCache
    return percentages
  | (none, _) => do
    let percentages ← Step.lift (selector.calculatePercentages K eventDateUtc)
    set (lruCache.add eventDateUtc percentages)
    return percentages

section Calls

variable (X : Externals) {InputFields : Type}
  (labelerInput : LabelerInput InputFields)

/-- The release for an event with the percentages of its day.  The loop over
them is that of the C++ selector. -/
def chooseRelease (percentages : List ModelReleasePercentile) :
    Result (Option String) :=
  match percentages with
  | [] => return none
  | first :: _ => do
    let eventId ← getEventId labelerInput
    return some (selectModelRelease X eventId percentages
      first.modelReleaseResourceKey)

/-- `getModelRelease`. -/
def getModelRelease : Step ReleaseCache (Option String) :=
  if isActive selector.modelLine labelerInput.timestampUsec then do
    let percentages ←
      selector.readFromCache K (eventDateUtc labelerInput.timestampUsec)
    Step.lift (chooseRelease X labelerInput percentages)
  else return none

end Calls

end VidModelSelector

end VirtualPeople.Kotlin
