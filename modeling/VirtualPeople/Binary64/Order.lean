import VirtualPeople.Binary64.Signs

/-!
# The order of doubles that stand for numbers

What a comparison of two doubles says about the numbers that they denote, where
one of them may also be below zero, infinite or not a number.
-/

namespace Binary64

open Float.Model
open Float.Model.UnpackedFloat

namespace Denotes

variable {a b c : Float} {x y : ℝ}

theorem lt_of_lt (left : Denotes a x) (right : Denotes b y) (lt : a < b) :
    x < y := by
  cases right with
  | positive represents' =>
    cases left with
    | positive represents => exact (represents.lt_iff represents').mp lt
    | negativeZero unpacked =>
      cases represents' with
      | zero unpacked' =>
        rw [lt_iff_compare, unpacked, unpacked'] at lt
        simp [UnpackedFloat.compare] at lt
      | finite => exact magnitude_pos ‹_› _
  | negativeZero unpacked' =>
    rw [lt_iff_compare, unpacked'] at lt
    cases left with
    | negativeZero unpacked => simp [unpacked, UnpackedFloat.compare] at lt
    | positive represents =>
      cases represents with
      | zero unpacked => simp [unpacked, UnpackedFloat.compare] at lt
      | finite unpacked => simp [unpacked, UnpackedFloat.compare] at lt

theorem not_lt_self (denotes : Denotes a x) : ¬a < a := by
  cases denotes with
  | positive represents => exact represents.not_lt_self
  | negativeZero unpacked =>
    rw [lt_iff_compare, unpacked]
    simp [UnpackedFloat.compare]

/-- Nothing below zero is above these. -/
theorem not_lt_of_lt_zero (denotes : Denotes a x) (negative : b < 0.0) :
    ¬a < b := by
  intro lt
  rw [lt_iff_compare, unpack_zero] at negative
  rw [lt_iff_compare] at lt
  cases unpacked : b.toModel.unpack with
  | notANumber => simp [unpacked, UnpackedFloat.compare] at negative
  | zero sign => simp [unpacked, UnpackedFloat.compare] at negative
  | infinity sign =>
    rw [← lt_iff_compare] at lt
    cases sign with
    | positive => simp [unpacked, UnpackedFloat.compare] at negative
    | negative => exact not_lt_negative_infinity unpacked lt
  | finite sign mantissa exponent positive =>
    cases sign with
    | positive => simp [unpacked, UnpackedFloat.compare] at negative
    | negative =>
      cases denotes with
      | negativeZero unpacked' =>
        simp [unpacked, unpacked', UnpackedFloat.compare] at lt
      | positive represents =>
        cases represents with
        | zero unpacked' =>
          simp [unpacked, unpacked', UnpackedFloat.compare] at lt
        | finite unpacked' =>
          simp [unpacked, unpacked', UnpackedFloat.compare] at lt

/-- What is above something and not finite is above every finite double. -/
theorem lt_of_infinite (denotes : Denotes a x)
    (infinite : Binary64.truncate b = none) (lt : c < b) : a < b := by
  unfold Binary64.truncate at infinite
  rw [lt_iff_compare] at lt ⊢
  cases unpacked : b.toModel.unpack with
  | zero sign => simp [unpacked] at infinite
  | finite sign mantissa exponent positive => simp [unpacked] at infinite
  | notANumber =>
    rw [unpacked] at lt
    cases other : c.toModel.unpack <;>
      simp [other, UnpackedFloat.compare] at lt
  | infinity sign =>
    rw [← lt_iff_compare] at lt
    cases sign with
    | negative => exact absurd lt (not_lt_negative_infinity unpacked)
    | positive =>
      cases denotes with
      | negativeZero unpacked' =>
        rw [unpacked']
        rfl
      | positive represents =>
        cases represents with
        | zero unpacked' =>
          rw [unpacked']
          rfl
        | finite unpacked' =>
          rw [unpacked']
          rfl

/-- A bounded double is below zero or finite. -/
theorem lt_zero_or_exists (lt : a < b) :
    a < 0.0 ∨ ∃ x, Denotes a x := by
  by_cases negative : a < 0.0
  · exact .inl negative
  · refine .inr (exists_denotes (fun infinite => ?_) negative)
    unfold Binary64.truncate at infinite
    cases unpacked : a.toModel.unpack with
    | zero sign => simp [unpacked] at infinite
    | finite sign mantissa exponent positive => simp [unpacked] at infinite
    | notANumber => exact number_of_lt lt unpacked
    | infinity sign =>
      cases sign with
      | negative =>
        rw [lt_iff_compare, unpacked, unpack_zero] at negative
        exact negative rfl
      | positive => exact not_lt_of_top (.inr unpacked) lt

end Denotes

end Binary64
