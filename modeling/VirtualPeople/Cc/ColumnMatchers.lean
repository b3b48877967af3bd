import VirtualPeople.Cc.PopulationNodeHelper

/-!
# Column matchers

The two ways in which an updater finds the column of an event: the first field
filter that matches it, or the column whose masked hash equals its own.  What a
matcher returns is the position of a column or `kNoMatchingIndex`, so that the
range checks of its callers never fail.
-/

namespace VirtualPeople.Cc

variable (X : Externals)

/-- The index of an event that nothing matches. -/
def kNoMatchingIndex : ℤ :=
  -1

/-- The index of an optional position. -/
def matchingIndex (position : Option ℕ) : ℤ :=
  match position with
  | some position => position
  | none => kNoMatchingIndex

@[simp] theorem matchingIndex_none : matchingIndex none = kNoMatchingIndex := rfl

@[simp] theorem matchingIndex_some (position : ℕ) :
    matchingIndex (some position) = position := rfl

/-! ## Field filters -/

/-- Filters of which the first that matches counts. -/
structure FieldFiltersMatcher where
  filters : List X.FieldFilter

namespace FieldFiltersMatcher

variable {X}

/-- `FieldFiltersMatcher::Build`. -/
def build (filterConfigs : List X.FieldFilterProto) :
    Result (FieldFiltersMatcher X) :=
  if filterConfigs.isEmpty then
    throw (invalidArgument "The given FieldFilterProto configs is empty.")
  else do
    let filters ← filterConfigs.mapM X.newFieldFilter
    return ⟨filters⟩

/-- `GetFirstMatch`: the position of the first filter that matches. -/
def getFirstMatch (matcher : FieldFiltersMatcher X) (event : X.Event) : ℤ :=
  matchingIndex (matcher.filters.findIdx? fun filter => X.isMatch filter event)

end FieldFiltersMatcher

/-! ## Hashes of masked events -/

/-- The positions of columns by the fingerprints of their masked events. -/
abbrev HashIndexes := AList fun _ : UInt64 => ℤ

/-- One round of the loop over the columns: an index that replaces another one
is an error. -/
def insertOrAssign (state : HashIndexes × ℤ) (hash : UInt64) :
    Result (HashIndexes × ℤ) :=
  let (hashes, index) := state
  if hash ∈ hashes then
    throw (invalidArgument
      "Multiple events have the same hash when applying hash field mask.")
  else return (hashes.insert hash index, index + 1)

/-- A fingerprint that is known is not inserted again. -/
theorem insertOrAssign_of_mem {hashes : HashIndexes} {hash : UInt64}
    (known : hash ∈ hashes) (index : ℤ) :
    ∃ fault, insertOrAssign (hashes, index) hash = .error fault := by
  unfold insertOrAssign
  simp only [if_pos known]
  exact ⟨_, rfl⟩

/-- A new fingerprint is inserted at the next index. -/
theorem insertOrAssign_of_notMem {hashes : HashIndexes} {hash : UInt64}
    (fresh : hash ∉ hashes) (index : ℤ) :
    insertOrAssign (hashes, index) hash =
      .ok (hashes.insert hash index, index + 1) := by
  unfold insertOrAssign
  simp only [if_neg fresh]
  rfl

/-- No hash repeats or is in the table already. -/
def Fresh (indexes : HashIndexes) (hashes : List UInt64) : Prop :=
  hashes.Nodup ∧ ∀ hash ∈ hashes, hash ∉ indexes

/-- Fingerprints are new when the first is and the others are after it is
inserted. -/
theorem fresh_cons_iff {indexes : HashIndexes} {head : UInt64}
    (headFresh : head ∉ indexes) (index : ℤ) (hashes : List UInt64) :
    Fresh indexes (head :: hashes) ↔
      Fresh (indexes.insert head index) hashes := by
  unfold Fresh
  simp only [List.nodup_cons, List.forall_mem_cons, AList.mem_insert, not_or]
  constructor
  · rintro ⟨⟨notMem, nodup⟩, -, fresh⟩
    exact ⟨nodup, fun hash inHashes =>
      ⟨fun same => notMem (same ▸ inHashes), fresh hash inHashes⟩⟩
  · rintro ⟨nodup, fresh⟩
    exact ⟨⟨fun mem => (fresh head mem).1 rfl, nodup⟩, headFresh,
      fun hash inHashes => (fresh hash inHashes).2⟩

/-- The loop numbers fresh hashes, and fails on all others. -/
theorem foldlM_insertOrAssign (hashes : List UInt64) (indexes : HashIndexes)
    (index : ℤ) :
    match hashes.foldlM insertOrAssign (indexes, index) with
    | .ok (table, _) => Fresh indexes hashes ∧ ∀ hash, table.lookup hash =
        match hashes.findIdx? (· = hash) with
        | some position => some (index + position)
        | none => indexes.lookup hash
    | .error _ => ¬Fresh indexes hashes := by
  induction hashes generalizing indexes index with
  | nil => exact ⟨⟨.nil, by simp⟩, fun hash => rfl⟩
  | cons head hashes inductionHypothesis =>
    rw [List.foldlM_cons]
    by_cases known : head ∈ indexes
    · obtain ⟨fault, failed⟩ := insertOrAssign_of_mem known index
      rw [failed]
      exact fun fresh => fresh.2 head List.mem_cons_self known
    · have rest := inductionHypothesis (indexes.insert head index) (index + 1)
      rw [insertOrAssign_of_notMem known, fresh_cons_iff known index]
      change match hashes.foldlM insertOrAssign _ with
        | .ok (table, _) => _
        | .error _ => _
      generalize hashes.foldlM insertOrAssign _ = outcome at rest ⊢
      match outcome, rest with
      | .error _, notFresh => exact notFresh
      | .ok (table, _), ⟨fresh, lookups⟩ =>
        refine ⟨fresh, fun hash => ?_⟩
        rw [lookups, List.findIdx?_cons]
        by_cases same : head = hash
        · subst same
          have absent : hashes.findIdx? (· = head) = none := by
            rw [List.findIdx?_eq_none_iff]
            intro hash inHashes
            simpa using fun equal : hash = head =>
              fresh.2 hash inHashes ((AList.mem_insert _).mpr (Or.inl equal))
          simp [absent]
        · rw [if_neg (by simpa using same)]
          cases hashes.findIdx? (· = hash) with
          | none => simp [AList.lookup_insert_ne (Ne.symm same)]
          | some position =>
            simp only [Option.map_some, Option.some.injEq]
            omega

/-- From an empty table the loop numbers hashes without repetition. -/
theorem foldlM_insertOrAssign_empty (hashes : List UInt64) :
    match hashes.foldlM insertOrAssign (∅, 0) with
    | .ok (table, _) => hashes.Nodup ∧ ∀ hash, table.lookup hash =
        (hashes.findIdx? (· = hash)).map fun position => (position : ℤ)
    | .error _ => ¬hashes.Nodup := by
  have loop := foldlM_insertOrAssign hashes ∅ 0
  have freshIff : Fresh ∅ hashes ↔ hashes.Nodup :=
    and_iff_left fun hash _ => AList.notMem_empty hash
  rw [freshIff] at loop
  generalize List.foldlM insertOrAssign _ _ = outcome at loop ⊢
  match outcome, loop with
  | .error _, repeated => exact repeated
  | .ok (table, _), ⟨nodup, lookups⟩ =>
    refine ⟨nodup, fun hash => ?_⟩
    rw [lookups]
    cases hashes.findIdx? (· = hash) <;> simp

/-- The fingerprint of the masked event, serialized. -/
def hashLabelerEvent (event : X.Event) (hashFieldMask : List String) :
    UInt64 :=
  X.fingerprint64 (X.serializePartialAsString (X.mergeMask hashFieldMask event))

/-- The positions of masked events by their fingerprints. -/
structure HashFieldMaskMatcher where
  hashes : HashIndexes
  hashFieldMask : List String

namespace HashFieldMaskMatcher

/-- `HashFieldMaskMatcher::Build`. -/
def build (events : List X.Event) (hashFieldMask : List String) :
    Result HashFieldMaskMatcher :=
  if events.isEmpty then
    throw (invalidArgument
      "The events is empty when building HashFieldMaskMatcher.")
  else if hashFieldMask.isEmpty then
    throw (invalidArgument
      "The hash_field_mask is empty when building HashFieldMaskMatcher.")
  else do
    let (hashes, _) ←
      (events.map (hashLabelerEvent X · hashFieldMask)).foldlM insertOrAssign
        (∅, 0)
    return ⟨hashes, hashFieldMask⟩

/-- `GetMatch`: the position of the event that is masked to the same
fingerprint. -/
def getMatch (matcher : HashFieldMaskMatcher) (event : X.Event) : ℤ :=
  match matcher.hashes.lookup
      (hashLabelerEvent X event matcher.hashFieldMask) with
  | some index => index
  | none => kNoMatchingIndex

variable {X}

/-- A matcher is built exactly for columns with different hashes, and it finds
the column that has the hash of the event. -/
theorem build_spec (events : List X.Event) (hashFieldMask : List String) :
    match build X events hashFieldMask with
    | .ok matcher =>
      (events ≠ [] ∧ hashFieldMask ≠ [] ∧
        (events.map (hashLabelerEvent X · hashFieldMask)).Nodup) ∧
      ∀ event, matcher.getMatch X event = matchingIndex (events.findIdx?
        fun column => hashLabelerEvent X column hashFieldMask =
          hashLabelerEvent X event hashFieldMask)
    | .error _ => ¬(events ≠ [] ∧ hashFieldMask ≠ [] ∧
        (events.map (hashLabelerEvent X · hashFieldMask)).Nodup) := by
  unfold build
  split_ifs with noEvents noMask
  · exact fun conditions => conditions.1 (List.isEmpty_iff.mp noEvents)
  · exact fun conditions => conditions.2.1 (List.isEmpty_iff.mp noMask)
  · rw [List.isEmpty_iff] at noEvents noMask
    have numbered := foldlM_insertOrAssign_empty
      (events.map (hashLabelerEvent X · hashFieldMask))
    generalize List.foldlM insertOrAssign _ _ = outcome at numbered ⊢
    match outcome, numbered with
    | .error _, repeated => exact fun conditions => repeated conditions.2.2
    | .ok (table, _), ⟨nodup, lookups⟩ =>
      refine ⟨⟨noEvents, noMask, nodup⟩, fun event => ?_⟩
      have found := lookups (hashLabelerEvent X event hashFieldMask)
      rw [List.findIdx?_map] at found
      unfold getMatch
      simp only [found, Function.comp_def]
      cases events.findIdx? _ <;> rfl

end HashFieldMaskMatcher

end VirtualPeople.Cc
