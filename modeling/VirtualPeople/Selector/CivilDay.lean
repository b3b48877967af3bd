import Mathlib.Data.Int.Notation
import Mathlib.Tactic.NormNum
import VirtualPeople.Binary64.Arithmetic

/-!
# Civil days

Dates of the selector as day numbers.  Abseil and the protobuf library make the
days and the times, and they are outside of this repository: they come as a
parameter, together with what their documentation says of them.
-/

namespace VirtualPeople.Selector

open Binary64 (Represents RepresentsSize ofInt)

/-- `google.type.Date` -/
structure Date where
  year : Int32
  month : Int32
  day : Int32
  deriving DecidableEq

/-- `google.protobuf.Timestamp` -/
structure Timestamp where
  seconds : Int64
  nanos : Int32
  deriving DecidableEq

/-- What the selector calls from Abseil and from the protobuf library.  A civil
day is the number of days from 1970-01-01, by which civil days compare. -/
class TimeExternals where
  /-- `absl::CivilDay(year, month, day)` -/
  civilDay (year month day : Int32) : ℤ
  /-- `absl::CivilDay(absl::CivilSecond::max())` -/
  maxCivilDay : ℤ
  /-- `absl::ToCivilDay(absl::FromUnixMicros(usec), absl::UTCTimeZone())` -/
  toCivilDay (usec : ℤ) : ℤ
  /-- `TimeUtil::TimestampToMicroseconds` -/
  timestampToMicroseconds (timestamp : Timestamp) : ℤ
  /-- `absl::ToDoubleSeconds`, of a length in whole seconds. -/
  toDoubleSeconds (seconds : ℤ) : Float

open TimeExternals (maxCivilDay timestampToMicroseconds toDoubleSeconds)

section Functions

variable [TimeExternals]

/-- `DateToCivilDay` -/
def Date.toCivilDay (date : Date) : ℤ :=
  TimeExternals.civilDay date.year date.month date.day

/-- `TimeUsecToCivilDay`, in UTC. -/
def timeUsecToCivilDay (usec : ℤ) : ℤ :=
  TimeExternals.toCivilDay usec

end Functions

/-! ## What is documented -/

/-- The microseconds of a time, with the nanoseconds rounded toward zero. -/
def Timestamp.microseconds (timestamp : Timestamp) : ℤ :=
  timestamp.seconds.toInt * 1000000 + timestamp.nanos.toInt.tdiv 1000

/-- The day of a year, a month and a day that need not be in their ranges, as
the number of days from 1970-01-01 in the proleptic Gregorian calendar: months
carry into years, and then days are counted on. -/
def gregorianDay (year month day : ℤ) : ℤ :=
  let year := year + (month - 1) / 12
  let month := (month - 1) % 12 + 1
  -- Years are counted from March, so that leap days come last.
  let marchYear := if month ≤ 2 then year - 1 else year
  let marchMonth := if month ≤ 2 then month + 9 else month - 3
  let yearOfEra := marchYear % 400
  let dayOfYear := (153 * marchMonth + 2) / 5 + (day - 1)
  marchYear / 400 * 146097 +
    (yearOfEra * 365 + yearOfEra / 4 - yearOfEra / 100 + dayOfYear) - 719468

/-- The epoch, the leap day of 2000, and a month past the end of its year. -/
example : gregorianDay 1970 1 1 = 0 ∧ gregorianDay 2000 2 29 = 11016 ∧
    gregorianDay 2023 13 1 = gregorianDay 2024 1 1 := by decide

/-- What is documented of these functions.  Civil days are those of the
proleptic Gregorian calendar, and a civil day normalizes the fields that it is
built from. -/
class LawfulTimeExternals [TimeExternals] : Prop where
  civilDay_eq (year month day : Int32) :
    TimeExternals.civilDay year month day =
      gregorianDay year.toInt month.toInt day.toInt
  /-- The last civil day ends the last 64-bit year. -/
  maxCivilDay_eq : maxCivilDay = gregorianDay 9223372036854775807 12 31
  toCivilDay_eq (usec : Int64) :
    TimeExternals.toCivilDay usec.toInt = usec.toInt / 86400000000
  timestampToMicroseconds_eq (timestamp : Timestamp) :
    timestampToMicroseconds timestamp = timestamp.microseconds
  /-- Lengths that a duration can hold are converted to finite doubles. -/
  toDoubleSeconds_finite (days : ℕ) : days < 2 ^ 46 →
    ∃ x ≤ (2 : ℝ) ^ (64 : ℤ), Represents (toDoubleSeconds (days * 86400)) x
  /-- A longer time is not converted to a smaller double. -/
  toDoubleSeconds_mono {days longer : ℕ} : days ≤ longer → longer < 2 ^ 46 →
    ¬toDoubleSeconds (longer * 86400) < toDoubleSeconds (days * 86400)
  /-- Lengths of up to ten thousand years are converted exactly. -/
  toDoubleSeconds_eq (days : ℤ) : -2 ^ 22 ≤ days → days ≤ 2 ^ 22 →
    toDoubleSeconds (days * 86400) = ofInt (days * 86400)

/-- The documented functions, with lengths rounded to the nearest double. -/
@[reducible] def documentedTimes : TimeExternals where
  civilDay year month day := gregorianDay year.toInt month.toInt day.toInt
  maxCivilDay := gregorianDay 9223372036854775807 12 31
  toCivilDay usec := usec / 86400000000
  timestampToMicroseconds := Timestamp.microseconds
  toDoubleSeconds := ofInt

/-- A number of days in seconds is rounded to a finite double. -/
theorem represents_ofInt_days {days : ℕ} (lt : days < 2 ^ 46) :
    Represents (ofInt (days * 86400))
      (Binary64.roundMagnitude ((days * 86400 : ℕ) : ℝ)) := by
  rcases Nat.eq_zero_or_pos days with rfl | positive
  · have zero : Binary64.roundMagnitude ((0 * 86400 : ℕ) : ℝ) = 0 := by
      simp [Binary64.roundMagnitude]
    rw [zero]
    exact .zero rfl
  · have rounded := @Binary64.represents_ofInt (days * 86400) (by omega)
      (.of_nat (by omega) (by omega))
    push_cast at rounded ⊢
    exact rounded

section Documented

attribute [local instance] documentedTimes

instance lawful_documentedTimes : LawfulTimeExternals where
  civilDay_eq _ _ _ := rfl
  maxCivilDay_eq := rfl
  toCivilDay_eq _ := rfl
  timestampToMicroseconds_eq _ := rfl
  toDoubleSeconds_finite days lt := by
    refine ⟨_, ?_, represents_ofInt_days lt⟩
    rcases Nat.eq_zero_or_pos days with rfl | positive
    · simp [Binary64.roundMagnitude]
    · refine (Binary64.Representable.two_zpow
        (by norm_num)).roundMagnitude_le (by exact_mod_cast (by omega)) ?_
      exact_mod_cast (by omega : days * 86400 ≤ 2 ^ 64)
  toDoubleSeconds_mono {days longer} le lt := by
    have shorter := represents_ofInt_days (le.trans_lt lt)
    change ¬ofInt (longer * 86400) < ofInt (days * 86400)
    rw [(represents_ofInt_days lt).lt_iff shorter, not_lt]
    rcases Nat.eq_zero_or_pos days with rfl | positive
    · have nonneg := (represents_ofInt_days lt).nonneg
      simpa [Binary64.roundMagnitude] using nonneg
    · refine Binary64.roundMagnitude_mono ?_ ?_
      · exact_mod_cast (by omega : 0 < days * 86400)
      · exact_mod_cast (by omega : days * 86400 ≤ longer * 86400)
  toDoubleSeconds_eq _ _ _ := rfl

end Documented

section Laws

variable [TimeExternals] [LawfulTimeExternals]

/-- Days of dates stay far inside of the 64-bit range. -/
theorem Date.toCivilDay_bounds (date : Date) :
    -2 ^ 41 ≤ date.toCivilDay ∧ date.toCivilDay ≤ 2 ^ 41 := by
  have := date.year.le_toInt
  have := date.year.toInt_lt
  have := date.month.le_toInt
  have := date.month.toInt_lt
  have := date.day.le_toInt
  have := date.day.toInt_lt
  unfold Date.toCivilDay
  rw [LawfulTimeExternals.civilDay_eq]
  unfold gregorianDay
  simp only
  split_ifs <;> omega

/-- The UTC day of an event counts its whole days since the epoch. -/
theorem timeUsecToCivilDay_eq (usec : Int64) :
    timeUsecToCivilDay usec.toInt = usec.toInt / 86400000000 :=
  LawfulTimeExternals.toCivilDay_eq usec

/-- No 64-bit timestamp reaches the last civil day. -/
theorem timeUsecToCivilDay_bounds (usec : Int64) :
    -2 ^ 41 ≤ timeUsecToCivilDay usec.toInt ∧
      timeUsecToCivilDay usec.toInt ≤ 2 ^ 41 ∧
        timeUsecToCivilDay usec.toInt < maxCivilDay := by
  have := usec.le_toInt
  have := usec.toInt_lt
  have maxEq : maxCivilDay = 3368767461170929733524 :=
    LawfulTimeExternals.maxCivilDay_eq.trans (by decide)
  rw [timeUsecToCivilDay_eq]
  omega

/-- A number of days is a double of at least one second, if it is not zero. -/
theorem exists_representsSize {days : ℕ} (lt : days < 2 ^ 46) :
    ∃ x, RepresentsSize (toDoubleSeconds (days * 86400)) x ∧
      (0 < days → 1 ≤ x) := by
  obtain ⟨x, upper, represents⟩ :=
    LawfulTimeExternals.toDoubleSeconds_finite days lt
  have positiveGe : 0 < days → 1 ≤ x := by
    intro positive
    have notLess := LawfulTimeExternals.toDoubleSeconds_mono positive lt
    have dayEq := LawfulTimeExternals.toDoubleSeconds_eq 1 (by norm_num)
      (by norm_num)
    have day := Binary64.represents_ofInt_exact
      (show 1 * 86400 ≤ 2 ^ 53 by norm_num)
    push_cast at notLess dayEq day
    rw [dayEq, represents.lt_iff day, not_lt] at notLess
    linarith
  refine ⟨x, ⟨represents, ?_, upper⟩, positiveGe⟩
  rcases Nat.eq_zero_or_pos days with rfl | positive
  · have zeroEq := LawfulTimeExternals.toDoubleSeconds_eq 0 (by norm_num)
      (by norm_num)
    have zero := Binary64.represents_ofInt_exact (show 0 ≤ 2 ^ 53 by norm_num)
    push_cast at represents zero zeroEq
    rw [zeroEq] at represents
    exact .inl (represents.unique zero)
  · exact .inr (positiveGe positive)

/-- Whatever is below a share of a period is below every larger share. -/
theorem lt_toDoubleSeconds_div_of_le {days longer period : ℕ}
    (le : days ≤ longer) (longerLt : longer < 2 ^ 46) (positive : 0 < period)
    (periodLt : period < 2 ^ 46) {c : Float}
    (lt : c < toDoubleSeconds (days * 86400) /
      toDoubleSeconds (period * 86400)) :
    c < toDoubleSeconds (longer * 86400) /
      toDoubleSeconds (period * 86400) := by
  obtain ⟨x, represents, -⟩ := exists_representsSize (le.trans_lt longerLt)
  obtain ⟨x', represents', -⟩ := exists_representsSize longerLt
  obtain ⟨y, divisor, yGe⟩ := exists_representsSize periodLt
  have notLess := LawfulTimeExternals.toDoubleSeconds_mono le longerLt
  rw [represents'.represents.lt_iff represents.represents, not_lt] at notLess
  exact represents.lt_div_of_le represents' divisor (yGe positive) notLess lt

end Laws

end VirtualPeople.Selector
