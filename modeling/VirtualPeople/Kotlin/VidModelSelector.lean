import VirtualPeople.Selector.VidModelSelector

/-!
# The active range of a model line in two languages

The C++ selector compares microseconds, and takes a missing end as infinite.
The Kotlin selector first cuts the time of the event to a whole second, toward
zero, and reads a missing end as the epoch.  Its range is one of microseconds
as well, with both ends moved to where whole seconds change.
-/

namespace VirtualPeople.Kotlin

open Selector

/-! ## Instants -/

/-- `Timestamp.toInstant`: the nanoseconds since the epoch. -/
def toInstant (timestamp : Timestamp) : ℤ :=
  timestamp.seconds.toInt * 1000000000 + timestamp.nanos.toInt

/-- `Instant.ofEpochSecond` -/
def ofEpochSecond (seconds : Int64) : ℤ :=
  seconds.toInt * 1000000000

/-- A range of instants without its end. -/
structure OpenEndTimeRange where
  start : ℤ
  endExclusive : ℤ

/-- The instant is in the half-open range. -/
def OpenEndTimeRange.contains (range : OpenEndTimeRange) (instant : ℤ) : Bool :=
  range.start ≤ instant && instant < range.endExclusive

namespace VidModelSelector

/-- The time of the event, cut to whole seconds. -/
def eventInstant (timestampUsec : Int64) : ℤ :=
  ofEpochSecond (timestampUsec / 1000000)

/-- The active range, in which a time that is not set is the epoch. -/
def modelLineActiveRange (modelLine : ModelLine) : OpenEndTimeRange where
  start := toInstant (modelLine.activeStartTime.getD ⟨0, 0⟩)
  endExclusive := toInstant (modelLine.activeEndTime.getD ⟨0, 0⟩)

/-- The model line is active at the time of the event. -/
def isActive (modelLine : ModelLine) (timestampUsec : Int64) : Bool :=
  (modelLineActiveRange modelLine).contains (eventInstant timestampUsec)

/-- The date of the event in UTC, in days since the epoch. -/
def eventDateUtc (timestampUsec : Int64) : ℤ :=
  eventInstant timestampUsec / 86400000000000

/-! ## Whole seconds -/

/-- The whole second of a time, on both sides of the epoch. -/
theorem eventInstant_eq (timestampUsec : Int64) :
    eventInstant timestampUsec =
      if 0 ≤ timestampUsec.toInt then
        timestampUsec.toInt / 1000000 * 1000000000
      else -(-timestampUsec.toInt / 1000000) * 1000000000 := by
  have := timestampUsec.le_toInt
  have := timestampUsec.toInt_lt
  have quotient : (timestampUsec / 1000000).toInt =
      timestampUsec.toInt.tdiv 1000000 :=
    Int64.toInt_div_of_ne_right _ _ (by decide)
  unfold eventInstant ofEpochSecond
  rw [quotient]
  split_ifs with nonneg
  · rw [Int.tdiv_eq_ediv_of_nonneg nonneg]
  · have positive : 0 ≤ -timestampUsec.toInt := by omega
    rw [← neg_neg timestampUsec.toInt, Int.neg_tdiv,
      Int.tdiv_eq_ediv_of_nonneg positive, neg_neg]

/-- The first microsecond whose whole second is not before the instant. -/
def firstMicrosecond (instant : ℤ) : ℤ :=
  -- The instant rounded up to a whole second.
  let second := -(-instant / 1000000000)
  if 0 < second then second * 1000000 else (second - 1) * 1000000 + 1

/-- An event is at or after an instant when its time is from a microsecond on. -/
theorem le_eventInstant_iff (instant : ℤ) (timestampUsec : Int64) :
    instant ≤ eventInstant timestampUsec ↔
      firstMicrosecond instant ≤ timestampUsec.toInt := by
  rw [eventInstant_eq]
  unfold firstMicrosecond
  simp only
  split_ifs <;> omega

/-- From the epoch on a bound in whole seconds is where it is in C++. -/
theorem firstMicrosecond_of_wholeSeconds {timestamp : Timestamp}
    (whole : timestamp.nanos = 0) (positive : 0 < timestamp.seconds.toInt) :
    firstMicrosecond (toInstant timestamp) = timestamp.microseconds := by
  unfold firstMicrosecond toInstant Timestamp.microseconds
  rw [whole]
  simp only [Int32.toInt_zero, Int.zero_tdiv]
  split_ifs <;> omega

/-! ## Agreement -/

/-- The event is at or after the start, and before the end, if there is one. -/
def InRange (modelLine : ModelLine) (usec : ℤ) : Prop :=
  (modelLine.activeStartTime.getD ⟨0, 0⟩).microseconds ≤ usec ∧
    ∀ activeEndTime ∈ modelLine.activeEndTime,
      usec < activeEndTime.microseconds

instance (modelLine : ModelLine) (usec : ℤ) :
    Decidable (InRange modelLine usec) :=
  inferInstanceAs (Decidable (_ ∧ ∀ _ ∈ _, _))

/-- The same with both bounds moved to where whole seconds change, and the
epoch in the place of a missing end. -/
def InMovedRange (modelLine : ModelLine) (usec : ℤ) : Prop :=
  firstMicrosecond (toInstant (modelLine.activeStartTime.getD ⟨0, 0⟩)) ≤ usec ∧
    usec < firstMicrosecond (toInstant (modelLine.activeEndTime.getD ⟨0, 0⟩))

instance (modelLine : ModelLine) (usec : ℤ) :
    Decidable (InMovedRange modelLine usec) :=
  inferInstanceAs (Decidable (_ ∧ _))

/-- The event is before the epoch, and less than a second before midnight. -/
def IsJustBeforeMidnight (usec : ℤ) : Prop :=
  usec < 0 ∧ 86400000000 - 1000000 < usec % 86400000000

instance (usec : ℤ) : Decidable (IsJustBeforeMidnight usec) :=
  inferInstanceAs (Decidable (_ ∧ _))

/-- The Kotlin selector is active in the moved range. -/
theorem kotlin_isActive_iff (modelLine : ModelLine) (timestampUsec : Int64) :
    isActive modelLine timestampUsec = true ↔
      InMovedRange modelLine timestampUsec.toInt := by
  unfold isActive OpenEndTimeRange.contains InMovedRange
  simp only [Bool.and_eq_true, decide_eq_true_eq, modelLineActiveRange,
    le_eventInstant_iff, ← not_le]

section Laws

variable [TimeExternals] [LawfulTimeExternals]

/-- The C++ selector is active in the range. -/
theorem isActive_iff (selector : VidModelSelector) (timestampUsec : Int64) :
    selector.isActive timestampUsec = true ↔
      InRange selector.modelLine timestampUsec.toInt := by
  unfold Selector.VidModelSelector.isActive InRange
  simp only [LawfulTimeExternals.timestampToMicroseconds_eq]
  cases selector.modelLine.activeEndTime <;> simp

/-- The dates are the same but just before a midnight. -/
theorem eventDateUtc_eq_iff (timestampUsec : Int64) :
    timeUsecToCivilDay timestampUsec.toInt = eventDateUtc timestampUsec ↔
      ¬IsJustBeforeMidnight timestampUsec.toInt := by
  rw [timeUsecToCivilDay_eq]
  unfold eventDateUtc IsJustBeforeMidnight
  rw [eventInstant_eq]
  split_ifs <;> omega

/-- The two selectors agree on whether an event is active, and on its date,
exactly when it lies in both ranges or in none, and in both only with the
same date. -/
theorem active_agrees_iff (selector : VidModelSelector)
    (timestampUsec : Int64) :
    ((selector.isActive timestampUsec = true ↔
        isActive selector.modelLine timestampUsec = true) ∧
      (selector.isActive timestampUsec = true →
        isActive selector.modelLine timestampUsec = true →
          timeUsecToCivilDay timestampUsec.toInt =
            eventDateUtc timestampUsec)) ↔
      (InRange selector.modelLine timestampUsec.toInt ↔
        InMovedRange selector.modelLine timestampUsec.toInt) ∧
      (InRange selector.modelLine timestampUsec.toInt →
        InMovedRange selector.modelLine timestampUsec.toInt →
          ¬IsJustBeforeMidnight timestampUsec.toInt) := by
  rw [isActive_iff, kotlin_isActive_iff, eventDateUtc_eq_iff]

end Laws

section Example

attribute [local instance] documentedTimes

/-- A model line from one and a half seconds to ten seconds after the epoch. -/
def halfSecondSelector : Selector.VidModelSelector :=
  ⟨⟨"modelLines/1", some ⟨1, 500000000⟩, some ⟨10, 0⟩⟩, []⟩

/-- A tenth of a second after that start only the C++ selector is active, and
a second after it both are, on one day. -/
theorem active_agrees_iff_halfSecond :
    ¬(halfSecondSelector.isActive 1600000 = true ↔
        isActive halfSecondSelector.modelLine 1600000 = true) ∧
      (halfSecondSelector.isActive 2500000 = true ↔
        isActive halfSecondSelector.modelLine 2500000 = true) ∧
      timeUsecToCivilDay (2500000 : Int64).toInt = eventDateUtc 2500000 := by
  have early := active_agrees_iff halfSecondSelector 1600000
  have late := (active_agrees_iff halfSecondSelector 2500000).mpr
    ⟨by decide, by decide⟩
  refine ⟨fun agree => ?_, late.1, late.2 (by decide) (by decide)⟩
  exact absurd (early.mp ⟨agree, by decide⟩).1 (by decide)

/-- Without an end the line is active in C++ long after its start, and in
Kotlin it is not. -/
theorem active_disagrees :
    ∃ (selector : Selector.VidModelSelector) (timestampUsec : Int64),
      selector.modelLine = ⟨"modelLines/1", some ⟨0, 0⟩, none⟩ ∧
      timestampUsec = 1700000000000000 ∧
      ¬(selector.isActive timestampUsec = true ↔
        isActive selector.modelLine timestampUsec = true) := by
  refine ⟨⟨⟨"modelLines/1", some ⟨0, 0⟩, none⟩, []⟩, 1700000000000000, rfl, rfl,
    ?_⟩
  decide

end Example

/-- Bounds in whole seconds after the epoch make no difference. -/
theorem active_agrees_of_wholeSeconds [TimeExternals] [LawfulTimeExternals]
    (selector : Selector.VidModelSelector)
    {activeStartTime activeEndTime : Timestamp}
    (startEq : selector.modelLine.activeStartTime = some activeStartTime)
    (endEq : selector.modelLine.activeEndTime = some activeEndTime)
    (wholeStart : activeStartTime.nanos = 0)
    (wholeEnd : activeEndTime.nanos = 0)
    (startPositive : 0 < activeStartTime.seconds.toInt)
    (endPositive : 0 < activeEndTime.seconds.toInt) (timestampUsec : Int64) :
    (selector.isActive timestampUsec = true ↔
        isActive selector.modelLine timestampUsec = true) ∧
      (selector.isActive timestampUsec = true →
        timeUsecToCivilDay timestampUsec.toInt =
          eventDateUtc timestampUsec) := by
  rw [isActive_iff, kotlin_isActive_iff, eventDateUtc_eq_iff]
  unfold InRange InMovedRange IsJustBeforeMidnight
  rw [startEq, endEq, Option.getD_some, Option.getD_some,
    firstMicrosecond_of_wholeSeconds wholeStart startPositive,
    firstMicrosecond_of_wholeSeconds wholeEnd endPositive]
  refine ⟨by simp, fun active beforeMidnight => ?_⟩
  have afterStart := active.1
  unfold Timestamp.microseconds at afterStart
  rw [wholeStart, Int32.toInt_zero, Int.zero_tdiv] at afterStart
  omega

end VidModelSelector

end VirtualPeople.Kotlin
