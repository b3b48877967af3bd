import Mathlib.Data.List.Infix

/-!
# The first occurrence of a word in a text

Where a search from the left finds a word.  The place does not change when the
text goes on after the word.
-/

/-- The word stands in the text right after `before`, and nowhere earlier. -/
structure IsFirstOccurrence {α : Type*} (word before text : List α) : Prop where
  occurs : before ++ word <+: text
  earliest : ∀ earlier, earlier ++ word <+: text →
    before.length ≤ earlier.length

namespace IsFirstOccurrence

variable {α : Type*} {word before before' text : List α} {letter : α}

theorem nil (starts : word <+: text) : IsFirstOccurrence word [] text where
  occurs := starts
  earliest _ _ := Nat.zero_le _

theorem cons (first : IsFirstOccurrence word before text)
    (notHere : ¬word <+: letter :: text) :
    IsFirstOccurrence word (letter :: before) (letter :: text) where
  occurs := List.cons_prefix_cons.mpr ⟨rfl, first.occurs⟩
  earliest
    | [], occurs => absurd occurs notHere
    | _ :: earlier, occurs =>
      Nat.succ_le_succ (first.earliest earlier (List.cons_prefix_cons.mp occurs).2)

theorem tail
    (first : IsFirstOccurrence word (letter :: before) (letter :: text)) :
    IsFirstOccurrence word before text where
  occurs := (List.cons_prefix_cons.mp first.occurs).2
  earliest earlier occurs := Nat.le_of_succ_le_succ
    (first.earliest (letter :: earlier) (List.cons_prefix_cons.mpr ⟨rfl, occurs⟩))

theorem unique (first : IsFirstOccurrence word before text)
    (first' : IsFirstOccurrence word before' text) : before = before' := by
  have beforePrefix : before <+: text :=
    (List.prefix_append before word).trans first.occurs
  have beforePrefix' : before' <+: text :=
    (List.prefix_append before' word).trans first'.occurs
  have sameLength : before.length = before'.length :=
    le_antisymm (first.earliest before' first'.occurs)
      (first'.earliest before first.occurs)
  exact (List.prefix_of_prefix_length_le beforePrefix beforePrefix'
    sameLength.le).eq_of_length sameLength

/-- An earlier occurrence in a longer text would end inside of the text. -/
theorem append (first : IsFirstOccurrence word before text) (more : List α) :
    IsFirstOccurrence word before (text ++ more) where
  occurs := first.occurs.trans (List.prefix_append text more)
  earliest earlier occurs := by
    by_contra isEarlier
    have endsInside : (earlier ++ word).length ≤ text.length := by
      have := first.occurs.length_le
      simp only [List.length_append] at this ⊢
      omega
    exact isEarlier (first.earliest earlier
      (List.prefix_of_prefix_length_le occurs (List.prefix_append text more)
        endsInside))

/-- A word whose first letter is new comes first right after its text. -/
theorem of_notMem (absent : letter ∉ before) (more : List α) :
    IsFirstOccurrence (letter :: word) before
      (before ++ letter :: word ++ more) := by
  induction before with
  | nil => exact nil (List.prefix_append _ more)
  | cons first before inductionHypothesis =>
    rw [List.mem_cons, not_or] at absent
    refine cons (inductionHypothesis absent.2) fun occurs => ?_
    exact absent.1 (List.cons_prefix_cons.mp occurs).1

end IsFirstOccurrence
