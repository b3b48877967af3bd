import VirtualPeople.Selector.VidModelSelector

/-!
# The event id of an input in two languages

Both selectors look for a user id first and know an event id as a fallback.
They reach the fallback only for an input without a profile, so that an input
with a profile but no user id has no event id for them.  The C++ selector also
takes an `event_id` message without an id for an empty id.
-/

namespace VirtualPeople.Kotlin.VidModelSelector

open Selector.VidModelSelector (userInfos)

variable {InputFields : Type} (labelerInput : LabelerInput InputFields)

/-- What the selector says when it finds no id. -/
def missingEventId : String :=
  "Neither user_id nor event_id was found in the LabelerInput."

/-- A user info that is not set reads as one without a user id. -/
def getEventId : Result String :=
  match labelerInput.profileInfo with
  | some profileInfo =>
    match (userInfos profileInfo).findSome? fun userInfo =>
        (userInfo.getD ⟨none, none⟩).userId with
    | some userId => return userId
    | none => throw (.illegalState missingEventId)
  | none =>
    match (labelerInput.eventId.getD ⟨none, none⟩).id with
    | some id => return id
    | none => throw (.illegalState missingEventId)

/-! ## What both languages are to return -/

/-- The user ids of the input, in the order of its user infos. -/
def userIds : List String :=
  match labelerInput.profileInfo with
  | some profileInfo => (userInfos profileInfo).filterMap (·.bind (·.userId))
  | none => []

/-- `event_id.id` -/
def eventIdId : Option String :=
  labelerInput.eventId.bind (·.id)

/-- The first user id, or else the id of the event, or else the failure. -/
structure FollowsLaw (missing : Fault) (result : Result String) : Prop where
  userId : ∀ userId, (userIds labelerInput).head? = some userId →
    result = .ok userId
  eventId : userIds labelerInput = [] →
    ∀ id, eventIdId labelerInput = some id → result = .ok id
  failure : result = .error missing ↔
    userIds labelerInput = [] ∧ eventIdId labelerInput = none

variable {labelerInput}

/-- A result follows the law when it is right about the event id of an input
without user ids. -/
theorem followsLaw_iff {missing : Fault} {result : Result String}
    (found : ∀ userId, (userIds labelerInput).head? = some userId →
      result = .ok userId) :
    FollowsLaw labelerInput missing result ↔
      (userIds labelerInput = [] →
        result = (eventIdId labelerInput).elim (.error missing) .ok) := by
  constructor
  · intro follows noUserId
    cases idEq : eventIdId labelerInput with
    | none => exact follows.failure.mpr ⟨noUserId, idEq⟩
    | some id => exact follows.eventId noUserId id idEq
  · intro fallback
    refine ⟨found, fun noUserId id idEq => ?_, ?_, fun both => ?_⟩
    · rw [fallback noUserId, idEq]
      rfl
    · intro failed
      cases idsEq : userIds labelerInput with
      | nil =>
        refine ⟨rfl, ?_⟩
        cases idEq : eventIdId labelerInput with
        | none => rfl
        | some id => simp [fallback idsEq, idEq] at failed
      | cons userId rest =>
        have := found userId (by rw [idsEq, List.head?_cons])
        simp [this] at failed
    · rw [fallback both.1, both.2]
      rfl

theorem findSome?_userInfos {profileInfo : ProfileInfo}
    (present : labelerInput.profileInfo = some profileInfo) :
    (userInfos profileInfo).findSome? (·.bind (·.userId)) =
      (userIds labelerInput).head? := by
  rw [userIds, present, List.head?_filterMap]

/-- Reading a user info that is not set makes no difference. -/
theorem findSome?_getD_userInfos {profileInfo : ProfileInfo}
    (present : labelerInput.profileInfo = some profileInfo) :
    ((userInfos profileInfo).findSome? fun userInfo =>
        (userInfo.getD ⟨none, none⟩).userId) =
      (userIds labelerInput).head? := by
  rw [← findSome?_userInfos present]
  congr 1
  funext userInfo
  cases userInfo <;> rfl

theorem exists_profile_of_userIds (nonempty : userIds labelerInput ≠ []) :
    ∃ profileInfo, labelerInput.profileInfo = some profileInfo := by
  unfold userIds at nonempty
  split at nonempty
  next profileInfo present => exact ⟨profileInfo, present⟩
  next => contradiction

/-! ## What they return -/

section Results

variable {userId : String}

/-- The C++ selector takes the first user id. -/
theorem cc_getEventId_of_userId
    (first : (userIds labelerInput).head? = some userId) :
    Selector.VidModelSelector.getEventId labelerInput = .ok userId := by
  obtain ⟨profileInfo, present⟩ :=
    exists_profile_of_userIds (List.ne_nil_of_mem (List.mem_of_head? first))
  rw [← findSome?_userInfos present] at first
  simp only [Selector.VidModelSelector.getEventId, present, first]
  rfl

/-- The Kotlin selector takes the first user id. -/
theorem getEventId_of_userId
    (first : (userIds labelerInput).head? = some userId) :
    getEventId labelerInput = .ok userId := by
  obtain ⟨profileInfo, present⟩ :=
    exists_profile_of_userIds (List.ne_nil_of_mem (List.mem_of_head? first))
  rw [← findSome?_getD_userInfos present] at first
  simp only [getEventId, present, first]
  rfl

/-- Without a user id, the C++ selector takes the event id if there is no
profile. -/
theorem cc_getEventId_of_nil (noUserId : userIds labelerInput = []) :
    Selector.VidModelSelector.getEventId labelerInput =
      if labelerInput.profileInfo = none ∧ labelerInput.eventId ≠ none then
        .ok ((eventIdId labelerInput).getD "")
      else .error (invalidArgument missingEventId) := by
  unfold Selector.VidModelSelector.getEventId eventIdId
  cases present : labelerInput.profileInfo with
  | some profileInfo =>
    have noneFound := findSome?_userInfos present
    rw [noUserId, List.head?_nil] at noneFound
    simp only [noneFound]
    rfl
  | none => cases labelerInput.eventId <;> rfl

/-- Without a user id, the Kotlin selector takes the event id if there is no
profile. -/
theorem getEventId_of_nil (noUserId : userIds labelerInput = []) :
    getEventId labelerInput =
      if labelerInput.profileInfo = none then
        (eventIdId labelerInput).elim (.error (.illegalState missingEventId)) .ok
      else .error (.illegalState missingEventId) := by
  unfold getEventId eventIdId
  cases present : labelerInput.profileInfo with
  | some profileInfo =>
    have noneFound := findSome?_getD_userInfos present
    rw [noUserId, List.head?_nil] at noneFound
    simp only [noneFound]
    rfl
  | none =>
    cases labelerInput.eventId with
    | none => rfl
    | some eventId =>
      obtain ⟨id, idFingerprint⟩ := eventId
      cases id <;> rfl

end Results

/-! ## When they follow the law -/

theorem cc_followsLaw_iff :
    FollowsLaw labelerInput (invalidArgument missingEventId)
        (Selector.VidModelSelector.getEventId labelerInput) ↔
      (userIds labelerInput = [] →
        (labelerInput.profileInfo = none ∧ labelerInput.eventId ≠ none ↔
          eventIdId labelerInput ≠ none)) := by
  rw [followsLaw_iff fun _ => cc_getEventId_of_userId]
  refine forall_congr' fun noUserId => ?_
  rw [cc_getEventId_of_nil noUserId]
  cases eventIdId labelerInput <;> split_ifs with reached <;> simp [reached]

theorem kotlin_followsLaw_iff :
    FollowsLaw labelerInput (.illegalState missingEventId)
        (getEventId labelerInput) ↔
      (userIds labelerInput = [] → eventIdId labelerInput ≠ none →
        labelerInput.profileInfo = none) := by
  rw [followsLaw_iff fun _ => getEventId_of_userId]
  refine forall_congr' fun noUserId => ?_
  rw [getEventId_of_nil noUserId]
  cases eventIdId labelerInput <;> split_ifs with reached <;> simp [reached]

/-- Without a user id the C++ selector follows the law when the input has an
`event_id` but no profile exactly if it has an id of the event, and the Kotlin
selector when the id of an event does not stand beside a profile. -/
theorem getEventId_follows_iff (labelerInput : LabelerInput InputFields) :
    (FollowsLaw labelerInput (invalidArgument missingEventId)
        (Selector.VidModelSelector.getEventId labelerInput) ↔
      (userIds labelerInput = [] →
        (labelerInput.profileInfo = none ∧ labelerInput.eventId ≠ none ↔
          eventIdId labelerInput ≠ none))) ∧
    (FollowsLaw labelerInput (.illegalState missingEventId)
        (getEventId labelerInput) ↔
      (userIds labelerInput = [] → eventIdId labelerInput ≠ none →
        labelerInput.profileInfo = none)) :=
  ⟨cc_followsLaw_iff, kotlin_followsLaw_iff⟩

/-- An input with an empty profile and an id of its event. -/
def emptyProfile : LabelerInput Unit where
  eventId := some ⟨some "event", none⟩
  profileInfo := some ⟨none, none, none, none, none, none, none, none, none,
    none, none, none, none, none⟩
  timestampUsec := 0
  rankAssignments := []
  enableDebugTrace := false
  others := ()

/-- Both fail with the id of an event at hand, and only the C++ selector takes
an `event_id` without an id for an empty one. -/
theorem getEventId_breaks_law :
    eventIdId emptyProfile = some "event" ∧
      Selector.VidModelSelector.getEventId emptyProfile =
        .error (invalidArgument missingEventId) ∧
      getEventId emptyProfile = .error (.illegalState missingEventId) ∧
      ¬FollowsLaw emptyProfile (invalidArgument missingEventId)
        (Selector.VidModelSelector.getEventId emptyProfile) ∧
      ¬FollowsLaw emptyProfile (.illegalState missingEventId)
        (getEventId emptyProfile) ∧
      Selector.VidModelSelector.getEventId
        { emptyProfile with
          eventId := some ⟨none, none⟩
          profileInfo := none } = .ok "" := by
  refine ⟨rfl, rfl, rfl, fun follows => ?_, fun follows => ?_, rfl⟩
  · exact nomatch (follows.eventId rfl "event" rfl)
  · exact nomatch (follows.eventId rfl "event" rfl)

end VirtualPeople.Kotlin.VidModelSelector
