import Mathlib

/-!
# The first least element of a list

The loop that keeps the choice whose value is strictly below the value kept so
far, starting from a sentinel.  When some value is below the sentinel, the loop
ends at the first choice of least value.  Two such loops over the same choices
that end differently disagree about the order of the two results, one of them
strictly.
-/

namespace FirstLeast

variable {Choice Value : Type*}

/-- The choice and the value kept at the end of the loop. -/
def select [LT Value] [DecidableLT Value] (value : Choice → Value)
    (start : Choice × Value) (choices : List Choice) : Choice × Value :=
  choices.foldl
    (fun kept choice =>
      if value choice < kept.2 then (choice, value choice) else kept)
    start

/-! ## Any comparison -/

section Comparison

variable [LT Value] [DecidableLT Value] {value : Choice → Value}

@[simp] theorem select_append (value : Choice → Value) (start : Choice × Value)
    (choices others : List Choice) :
    select value start (choices ++ others) =
      select value (select value start choices) others :=
  List.foldl_append

/-- The loop keeps its start when no value is below it, and ends otherwise at a
choice whose value is below something. -/
theorem select_eq_start_or (value : Choice → Value) (start : Choice × Value)
    (choices : List Choice) :
    (select value start choices = start ∧
        ∀ choice ∈ choices, ¬value choice < start.2) ∨
      (∃ choice ∈ choices, value choice < start.2) ∧
        ∃ chosen ∈ choices, select value start choices = (chosen, value chosen) ∧
          ∃ bound, value chosen < bound := by
  induction choices generalizing start with
  | nil => exact .inl ⟨rfl, by simp⟩
  | cons choice choices inductionHypothesis =>
    rw [select, List.foldl_cons]
    split_ifs with below
    · refine .inr ⟨⟨choice, List.mem_cons_self, below⟩, ?_⟩
      rcases inductionHypothesis (choice, value choice) with
        ⟨selected, -⟩ | ⟨-, chosen, member, selected⟩
      · exact ⟨choice, List.mem_cons_self, selected, _, below⟩
      · exact ⟨chosen, List.mem_cons_of_mem choice member, selected⟩
    · rcases inductionHypothesis start with
        ⟨selected, above⟩ | ⟨⟨first, firstMem, firstBelow⟩, chosen, member, selected⟩
      · exact .inl ⟨selected, List.forall_mem_cons.mpr ⟨below, above⟩⟩
      · exact .inr ⟨⟨first, List.mem_cons_of_mem choice firstMem, firstBelow⟩,
          chosen, List.mem_cons_of_mem choice member, selected⟩

/-- Values that are below nothing do not count. -/
theorem select_of_not_lt {start : Choice × Value} {choices : List Choice}
    (above : ∀ choice ∈ choices, ∀ bound, ¬value choice < bound) :
    select value start choices = start := by
  rcases select_eq_start_or value start choices with
    ⟨selected, -⟩ | ⟨-, choice, member, -, bound, below⟩
  · exact selected
  · exact absurd below (above choice member bound)

/-- A value that nothing is below ends the search. -/
theorem select_of_bottom {start : Choice × Value}
    (bottom : ∀ value, ¬value < start.2) (choices : List Choice) :
    select value start choices = start := by
  induction choices with
  | nil => rfl
  | cons choice choices inductionHypothesis =>
    rw [select, List.foldl_cons, if_neg (bottom _)]
    exact inductionHypothesis

/-- The first such value that the loop comes to is its result. -/
theorem select_cons_of_bottom {start : Choice × Value} {choice : Choice}
    (below : value choice < start.2) (bottom : ∀ other, ¬other < value choice)
    (choices : List Choice) :
    select value start (choice :: choices) = (choice, value choice) := by
  rw [select, List.foldl_cons, if_pos below]
  exact select_of_bottom bottom choices

end Comparison

/-! ## The first element with a property -/

/-- `chosen` has the property, and no earlier element has it. -/
def IsFirst (property : Choice → Prop) (choices : List Choice)
    (chosen : Choice) : Prop :=
  ∃ before after, choices = before ++ chosen :: after ∧
    (∀ choice ∈ before, ¬property choice) ∧ property chosen

theorem exists_isFirst {property : Choice → Prop} {choices : List Choice}
    {choice : Choice} (member : choice ∈ choices) (holds : property choice) :
    ∃ chosen, IsFirst property choices chosen := by
  induction choices with
  | nil => contradiction
  | cons head choices inductionHypothesis =>
    by_cases headHolds : property head
    · exact ⟨head, [], choices, rfl, nofun, headHolds⟩
    · rcases List.mem_cons.mp member with rfl | later
      · contradiction
      · obtain ⟨chosen, before, after, rfl, earlier, chosenHolds⟩ :=
          inductionHypothesis later
        refine ⟨chosen, head :: before, after, rfl, ?_, chosenHolds⟩
        exact List.forall_mem_cons.mpr ⟨headHolds, earlier⟩

/-- The first value that nothing is below is taken, when no earlier value is
below anything. -/
theorem select_of_isFirst [LT Value] [DecidableLT Value]
    {value : Choice → Value} {property : Choice → Prop}
    {start : Choice × Value} {choices : List Choice} {chosen : Choice}
    (first : IsFirst property choices chosen)
    (above : ∀ choice ∈ choices, ¬property choice →
      ∀ bound, ¬value choice < bound)
    (below : property chosen → value chosen < start.2)
    (bottom : property chosen → ∀ other, ¬other < value chosen) :
    select value start choices = (chosen, value chosen) := by
  obtain ⟨before, after, rfl, earlier, holds⟩ := first
  have keepsStart : select value start before = start :=
    select_of_not_lt fun choice member =>
      above choice (List.mem_append_left _ member) (earlier choice member)
  rw [select_append, keepsStart]
  exact select_cons_of_bottom (below holds) (bottom holds) after

/-! ## Linear orders -/

variable [LinearOrder Value]

/-- No value is below that of `chosen`, and earlier values are above it. -/
def IsFirstLeast (value : Choice → Value) (choices : List Choice)
    (chosen : Choice) : Prop :=
  ∃ before after, choices = before ++ chosen :: after ∧
    (∀ choice ∈ before, value chosen < value choice) ∧
    ∀ choice ∈ after, value chosen ≤ value choice

namespace IsFirstLeast

variable {value value' : Choice → Value} {choices : List Choice}
  {chosen chosen' choice : Choice}

theorem mem (least : IsFirstLeast value choices chosen) : chosen ∈ choices := by
  obtain ⟨before, after, rfl, -, -⟩ := least
  simp

theorem le (least : IsFirstLeast value choices chosen)
    (mem : choice ∈ choices) : value chosen ≤ value choice := by
  obtain ⟨before, after, rfl, aboveBefore, aboveAfter⟩ := least
  rcases List.mem_append.mp mem with inBefore | inRest
  · exact (aboveBefore choice inBefore).le
  · rcases List.mem_cons.mp inRest with rfl | inAfter
    · exact le_rfl
    · exact aboveAfter choice inAfter

/-- A choice in front of all others keeps its place unless it is undercut. -/
theorem cons (least : IsFirstLeast value choices chosen)
    (above : value chosen < value choice) :
    IsFirstLeast value (choice :: choices) chosen := by
  obtain ⟨before, after, rfl, aboveBefore, aboveAfter⟩ := least
  refine ⟨choice :: before, after, rfl, ?_, aboveAfter⟩
  rintro other (_ | ⟨_, inBefore⟩)
  · exact above
  · exact aboveBefore other inBefore

/-- Two orders of the same choices with different first least choices rank
these two choices differently: whichever of the two stands first, the other one
was chosen over it because it is strictly less. -/
theorem lt_or_lt (least : IsFirstLeast value choices chosen)
    (least' : IsFirstLeast value' choices chosen')
    (different : chosen ≠ chosen') :
    value chosen < value chosen' ∨ value' chosen' < value' chosen := by
  obtain ⟨before, after, rfl, aboveBefore, -⟩ := least
  obtain ⟨before', after', same, aboveBefore', -⟩ := least'
  rcases List.append_eq_append_iff.mp same with
    ⟨between, beforeEq, restEq⟩ | ⟨between, beforeEq, restEq⟩
  · right
    rcases between with _ | ⟨first, between⟩
    · injection restEq with sameChoice
      exact absurd sameChoice different
    · injection restEq with firstEq
      apply aboveBefore'
      simp [beforeEq, firstEq]
  · left
    rcases between with _ | ⟨first, between⟩
    · injection restEq with sameChoice
      exact absurd sameChoice.symm different
    · injection restEq with firstEq
      apply aboveBefore
      simp [beforeEq, firstEq]

end IsFirstLeast

/-- The loop keeps its start when no value is below it, and ends otherwise at
the first least choice. -/
theorem select_spec (value : Choice → Value) (start : Choice × Value)
    (choices : List Choice) :
    (select value start choices = start ∧
        ∀ choice ∈ choices, start.2 ≤ value choice) ∨
      ∃ chosen, select value start choices = (chosen, value chosen) ∧
        value chosen < start.2 ∧ IsFirstLeast value choices chosen := by
  induction choices generalizing start with
  | nil => exact .inl ⟨rfl, by simp⟩
  | cons choice choices inductionHypothesis =>
    rw [select, List.foldl_cons]
    split_ifs with below
    · right
      rcases inductionHypothesis (choice, value choice) with
        ⟨selected, above⟩ | ⟨chosen, selected, less, least⟩
      · exact ⟨choice, selected, below, [], choices, rfl, by simp, above⟩
      · exact ⟨chosen, selected, less.trans below, least.cons less⟩
    · rcases inductionHypothesis start with
        ⟨selected, above⟩ | ⟨chosen, selected, less, least⟩
      · refine .inl ⟨selected, ?_⟩
        rintro other (_ | ⟨_, later⟩)
        · exact not_lt.mp below
        · exact above other later
      · exact .inr ⟨chosen, selected, less,
          least.cons (less.trans_le (not_lt.mp below))⟩

/-- A value below the sentinel is enough for a choice. -/
theorem select_of_lt {value : Choice → Value} {start : Choice × Value}
    {choices : List Choice} {choice : Choice} (mem : choice ∈ choices)
    (below : value choice < start.2) :
    ∃ chosen, select value start choices = (chosen, value chosen) ∧
      value chosen < start.2 ∧ IsFirstLeast value choices chosen := by
  rcases select_spec value start choices with ⟨-, above⟩ | found
  · exact absurd below (not_lt.mpr (above choice mem))
  · exact found

end FirstLeast
