import VirtualPeople.Cc.ColumnMatchers
import VirtualPeople.Kotlin.PopulationNodeHelper

/-!
# Column matchers, in Kotlin

The Kotlin matchers find the column of an event as the C++ ones do, except that
the hash of a masked event is taken of its text form, where C++ takes that of
its binary form.
-/

namespace VirtualPeople.Kotlin

variable (X : Externals)

/-- The position of the first element that satisfies the predicate, or -1. -/
def indexOfFirst {α : Type} (elements : List α) (predicate : α → Bool) : ℤ :=
  match elements.findIdx? predicate with
  | some position => position
  | none => -1

theorem indexOfFirst_eq {α : Type} (elements : List α) (predicate : α → Bool) :
    indexOfFirst elements predicate =
      Cc.matchingIndex (elements.findIdx? predicate) := by
  unfold indexOfFirst
  cases elements.findIdx? predicate <;> rfl

/-! ## Field filters -/

/-- Filters of which the first that matches counts. -/
structure FieldFiltersMatcher where
  filters : List X.FieldFilter

namespace FieldFiltersMatcher

variable {X}

/-- `FieldFiltersMatcher.build`. -/
def build (filterConfigs : List X.FieldFilterProto) :
    Result (FieldFiltersMatcher X) :=
  if filterConfigs.isEmpty then
    throw (.illegalState "The given FieldFilterProto configs is empty.")
  else do
    let filters ← filterConfigs.mapM X.newFieldFilter
    return ⟨filters⟩

/-- `getFirstMatch`: the position of the first filter that matches, or -1. -/
def getFirstMatch (matcher : FieldFiltersMatcher X) (event : X.Event) : ℤ :=
  indexOfFirst matcher.filters fun filter => X.isMatch filter event

/-- Both languages build the same filters. -/
theorem build_lockstep (filterConfigs : List X.FieldFilterProto) :
    Lockstep (fun matcher matcher' => matcher'.filters = matcher.filters)
      (Cc.FieldFiltersMatcher.build filterConfigs) (build filterConfigs) := by
  unfold Cc.FieldFiltersMatcher.build build
  split_ifs
  · exact .errors _ _
  · exact .bind_eq (.refl _) fun filters => .ok rfl

/-- Both languages find the same first match. -/
theorem getFirstMatch_eq {matcher : Cc.FieldFiltersMatcher X}
    {matcher' : FieldFiltersMatcher X}
    (same : matcher'.filters = matcher.filters) (event : X.Event) :
    matcher'.getFirstMatch event = matcher.getFirstMatch event := by
  unfold getFirstMatch
  rw [indexOfFirst_eq, same]
  rfl

end FieldFiltersMatcher

/-! ## Hashes of masked events -/

/-- One round of the loop over the columns. -/
def addHash (state : Cc.HashIndexes × ℤ) (hash : UInt64) :
    Result (Cc.HashIndexes × ℤ) :=
  let (hashes, index) := state
  if hash ∈ hashes then
    throw (.illegalState
      "Multiple events have the same hash when applying hash field mask.")
  else return (hashes.insert hash index, index + 1)

theorem foldlM_addHash_lockstep (hashes : List UInt64)
    (state : Cc.HashIndexes × ℤ) :
    Lockstep (· = ·) (hashes.foldlM Cc.insertOrAssign state)
      (hashes.foldlM addHash state) := by
  refine .foldlM_eq (fun hash _ state => ?_) state
  obtain ⟨table, index⟩ := state
  unfold Cc.insertOrAssign addHash
  simp only
  split_ifs
  · exact .errors _ _
  · exact .refl _

/-- The fingerprint of the masked event, printed. -/
def hashLabelerEvent (event : X.Event) (hashFieldMask : List String) :
    UInt64 :=
  X.fingerprint (X.printToString (X.mergeMask hashFieldMask event))

/-- The positions of masked events by their fingerprints. -/
structure HashFieldMaskMatcher where
  hashes : Cc.HashIndexes
  hashFieldMask : List String

namespace HashFieldMaskMatcher

/-- `HashFieldMaskMatcher.build`. -/
def build (events : List X.Event) (hashFieldMask : List String) :
    Result HashFieldMaskMatcher :=
  if events.isEmpty then
    throw (.illegalState
      "The events is empty when building HashFieldMaskMatcher.")
  else if hashFieldMask.isEmpty then
    throw (.illegalState
      "The hashFieldMask is empty when building HashFieldMaskMatcher.")
  else do
    let (hashes, _) ←
      (events.map (hashLabelerEvent X · hashFieldMask)).foldlM addHash (∅, 0)
    return ⟨hashes, hashFieldMask⟩

/-- `getMatch`: the position of the event that is masked to the same
fingerprint, or -1. -/
def getMatch (matcher : HashFieldMaskMatcher) (event : X.Event) : ℤ :=
  (matcher.hashes.lookup
    (hashLabelerEvent X event matcher.hashFieldMask)).getD (-1)

variable {X}

/-- A matcher is built exactly for columns with different hashes, and it finds
the column that has the hash of the event. -/
theorem build_spec (events : List X.Event) (hashFieldMask : List String) :
    match build X events hashFieldMask with
    | .ok matcher =>
      (events ≠ [] ∧ hashFieldMask ≠ [] ∧
        (events.map (hashLabelerEvent X · hashFieldMask)).Nodup) ∧
      ∀ event, matcher.getMatch X event = Cc.matchingIndex (events.findIdx?
        fun column => hashLabelerEvent X column hashFieldMask =
          hashLabelerEvent X event hashFieldMask)
    | .error _ => ¬(events ≠ [] ∧ hashFieldMask ≠ [] ∧
        (events.map (hashLabelerEvent X · hashFieldMask)).Nodup) := by
  unfold build
  split_ifs with noEvents noMask
  · exact fun conditions => conditions.1 (List.isEmpty_iff.mp noEvents)
  · exact fun conditions => conditions.2.1 (List.isEmpty_iff.mp noMask)
  · rw [List.isEmpty_iff] at noEvents noMask
    have numbered := Cc.foldlM_insertOrAssign_empty
      (events.map (hashLabelerEvent X · hashFieldMask))
    have loops := foldlM_addHash_lockstep
      (events.map (hashLabelerEvent X · hashFieldMask)) (∅, 0)
    generalize List.foldlM Cc.insertOrAssign _ _ = outcome at numbered loops
    generalize List.foldlM addHash _ _ = outcome' at loops ⊢
    cases loops with
    | excuse isExcused _ => exact isExcused.elim
    | errors _ _ => exact fun conditions => numbered conditions.2.2
    | @ok state _ same =>
      subst same
      obtain ⟨table, index⟩ := state
      obtain ⟨nodup, lookups⟩ := numbered
      refine ⟨⟨noEvents, noMask, nodup⟩, fun event => ?_⟩
      have found := lookups (hashLabelerEvent X event hashFieldMask)
      rw [List.findIdx?_map] at found
      unfold getMatch
      simp only [found, Function.comp_def]
      cases events.findIdx? _ <;> rfl

end HashFieldMaskMatcher

end VirtualPeople.Kotlin
