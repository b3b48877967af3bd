import VirtualPeople.Kotlin.Acceptance

/-!
# Updaters of both languages

An updater that both languages have built makes the same event of an event.
The one thing this rests on is that the fingerprints of masked events tell the
columns of a matrix and the events at hand apart, since the two languages take
them of different forms of an event.
-/

namespace VirtualPeople.Kotlin

open Binary64

variable {X : Externals}

/-! ## Elements -/

theorem elementAt_lockstep {α β : Type} {related : α → β → Prop}
    {elements : List α} {elements' : List β}
    (pointwise : List.Forall₂ related elements elements') (index : ℤ) :
    Lockstep related (Cc.elementAt elements index)
      (Cc.elementAt elements' index) := by
  unfold Cc.elementAt
  split_ifs
  · exact .errors _ _
  · generalize index.toNat = position
    induction pointwise generalizing position with
    | nil => exact .errors _ _
    | cons head _ inductionHypothesis =>
      cases position with
      | zero => exact .ok head
      | succ position => exact inductionHypothesis position

/-! ## Masked events -/

/-- A column and a served event whose masked forms have the same fingerprint
are the same under the mask, both for the binary and for the text form. -/
structure ColumnsSeparate (served : X.Event → Prop) (columns : List X.Event)
    (hashFieldMask : List String) : Prop where
  binary : ∀ column ∈ columns, ∀ event, served event →
    Cc.hashLabelerEvent X column hashFieldMask =
        Cc.hashLabelerEvent X event hashFieldMask →
      X.mergeMask hashFieldMask column = X.mergeMask hashFieldMask event
  text : ∀ column ∈ columns, ∀ event, served event →
    hashLabelerEvent X column hashFieldMask =
        hashLabelerEvent X event hashFieldMask →
      X.mergeMask hashFieldMask column = X.mergeMask hashFieldMask event

/-- The search only asks about the elements of the list. -/
theorem findIdx?_congr {α : Type} {elements : List α} {first second : α → Bool}
    (same : ∀ element ∈ elements, first element = second element) :
    elements.findIdx? first = elements.findIdx? second := by
  induction elements with
  | nil => rfl
  | cons head rest inductionHypothesis =>
    have ⟨headSame, restSame⟩ := List.forall_mem_cons.mp same
    rw [List.findIdx?_cons, List.findIdx?_cons, headSame,
      inductionHypothesis restSame]

section Columns

variable {served : X.Event → Prop} {columns : List X.Event}

/-- The two languages find a served event to have the hash of the same
columns. -/
theorem ColumnsSeparate.hashes_eq_iff {hashFieldMask : List String}
    (separate : ColumnsSeparate served columns hashFieldMask)
    {column event : X.Event} (member : column ∈ columns)
    (isServed : served event) :
    Cc.hashLabelerEvent X column hashFieldMask =
        Cc.hashLabelerEvent X event hashFieldMask ↔
      hashLabelerEvent X column hashFieldMask =
        hashLabelerEvent X event hashFieldMask := by
  constructor
  · intro same
    exact congrArg (fun event => X.fingerprint (X.printToString event))
      (separate.binary column member event isServed same)
  · intro same
    exact congrArg
      (fun event => X.fingerprint64 (X.serializePartialAsString event))
      (separate.text column member event isServed same)

/-- Both languages find the same masked column. -/
theorem HashFieldMaskMatcher.getMatch_eq {hashFieldMask : List String}
    (separate : ColumnsSeparate served columns hashFieldMask)
    {matcher : Cc.HashFieldMaskMatcher} {matcher' : HashFieldMaskMatcher}
    (built : Cc.HashFieldMaskMatcher.build X columns hashFieldMask =
      .ok matcher)
    (built' : build X columns hashFieldMask = .ok matcher') {event : X.Event}
    (isServed : served event) :
    matcher'.getMatch X event = matcher.getMatch X event := by
  have spec := Cc.HashFieldMaskMatcher.build_spec columns hashFieldMask
  have spec' := build_spec columns hashFieldMask
  rw [built] at spec
  rw [built'] at spec'
  rw [spec.2 event, spec'.2 event]
  congr 1
  refine findIdx?_congr fun column member => ?_
  rw [decide_eq_decide]
  exact (separate.hashes_eq_iff member isServed).symm

end Columns

/-! ## Selecting a row -/

/-- The matchers find the same column for every served event. -/
def SameColumns (served : X.Event → Prop) (matchers : Cc.MatrixMatchers X)
    (matchers' : MatrixMatchers X) : Prop :=
  ∀ event, served event → Lockstep (· = ·) (matchers.columnIndex event)
    (matchers'.columnIndex event)

/-- Both languages build matchers of the same columns. -/
theorem MatrixMatchers.build_aligned {served : X.Event → Prop}
    {columns : List X.Event} {hashFieldMask : Option (List String)}
    (separate : ∀ mask ∈ hashFieldMask, ColumnsSeparate served columns mask) :
    Aligned (SameColumns served)
      (Cc.MatrixMatchers.build columns hashFieldMask)
      (build columns hashFieldMask) := by
  cases hashFieldMask with
  | none =>
    exact .bind_same fun filters => .ok fun event _ =>
      .ok (FieldFiltersMatcher.getFirstMatch_eq rfl event).symm
  | some hashFieldMask =>
    intro matchers matchers' built built'
    obtain ⟨matcher, matcherEq, matchersEq⟩ := bind_eq_ok_iff.mp built
    obtain ⟨matcher', matcherEq', matchersEq'⟩ := bind_eq_ok_iff.mp built'
    rw [← Except.ok.inj matchersEq, ← Except.ok.inj matchersEq']
    exact fun event isServed => .ok (HashFieldMaskMatcher.getMatch_eq
      (separate hashFieldMask rfl) matcherEq matcherEq' isServed).symm

/-- The hashings choose alike. -/
abbrev SameHashing (hashing : Cc.DistributedConsistentHashing)
    (hashing' : DistributedConsistentHashing) : Prop :=
  hashing'.normalizedDistribution = hashing.distribution

/-- The same column and the same row are selected. -/
def SameIndexes (indexes : Cc.MatrixIndexes) (indexes' : MatrixIndexes) :
    Prop :=
  indexes'.columnIndex = indexes.columnIndex ∧
    indexes'.rowIndex = indexes.rowIndex

section Select

variable {served : X.Event → Prop} {matchers : Cc.MatrixMatchers X}
  {matchers' : MatrixMatchers X}
  {rowHashings : List Cc.DistributedConsistentHashing}
  {rowHashings' : List DistributedConsistentHashing}

/-- Both languages select the same column and row. -/
theorem selectFromMatrix_lockstep
    (columns : SameColumns served matchers matchers')
    (hashings : List.Forall₂ SameHashing rowHashings rowHashings')
    (randomSeed : String) {event : X.Event} (isServed : served event) :
    Lockstep SameIndexes
      (Cc.selectFromMatrix X matchers rowHashings randomSeed event)
      (selectFromMatrix X matchers' rowHashings' randomSeed event) := by
  unfold Cc.selectFromMatrix selectFromMatrix
  refine (columns event isServed).bind_eq fun columnIndex => ?_
  rw [Cc.kNoMatchingIndex, ← hashings.length_eq]
  split_ifs
  · exact .ok ⟨rfl, rfl⟩
  · exact .errors _ _
  · refine (elementAt_lockstep hashings columnIndex).bind
      fun hashing hashing' same => .ok ⟨rfl, ?_⟩
    rw [UInt64.toUInt64_toInt64]
    exact DistributedConsistentHashing.hash_eq same _

theorem mergeRow_lockstep (rows : List X.Event) (rowIndex : ℤ)
    (event : X.Event) :
    Lockstep (· = ·) (Cc.mergeRow X rows rowIndex event)
      (mergeRow X rows rowIndex event) := by
  unfold Cc.mergeRow mergeRow
  split_ifs
  · exact .errors _ _
  · exact .refl _

end Select

/-! ## Matrices -/

namespace UpdateMatrixImpl

theorem buildRowHashing_lockstep (config : UpdateMatrix X) (columnIndex : ℕ) :
    Lockstep SameHashing
      (Cc.UpdateMatrixImpl.columnDistribution config columnIndex >>=
        Cc.DistributedConsistentHashing.build)
      (buildRowHashing config columnIndex) :=
  .bind_eq (.refl _) DistributedConsistentHashing.new_lockstep

/-- Both languages build matrices that do the same. -/
theorem build_aligned {served : X.Event → Prop} {config : UpdateMatrix X}
    (separate : ∀ mask ∈ config.hashFieldMask,
      ColumnsSeparate served config.columns mask) :
    Aligned (fun updater updater' => ∀ event, served event →
        Lockstep (· = ·) (updater.update event) (updater'.update event))
      (Cc.UpdateMatrixImpl.build config) (build config) := by
  have rowHashings : Lockstep (List.Forall₂ SameHashing)
      ((List.range config.columns.length).mapM fun columnIndex =>
        Cc.UpdateMatrixImpl.columnDistribution config columnIndex >>=
          Cc.DistributedConsistentHashing.build)
      ((List.range config.columns.length).mapM (buildRowHashing config)) :=
    .mapM (List.forall₂_same.mpr fun columnIndex _ =>
      buildRowHashing_lockstep config columnIndex)
  unfold Cc.UpdateMatrixImpl.build build
  simp only
  split_ifs <;> try exact .throw _ _
  refine (MatrixMatchers.build_aligned separate).bind
    fun matchers matchers' columns => ?_
  refine rowHashings.aligned.bind fun hashings hashings' same =>
    .ok fun event isServed => ?_
  unfold Cc.UpdateMatrixImpl.update update
  refine (selectFromMatrix_lockstep columns same config.randomSeed
    isServed).bind fun indexes indexes' same => ?_
  rw [same.1, same.2, Cc.kNoMatchingIndex]
  split_ifs
  · exact .refl _
  · exact .errors _ _
  · exact mergeRow_lockstep _ _ event

end UpdateMatrixImpl

namespace SparseUpdateMatrixImpl

theorem buildRowHashing_lockstep (column : SparseUpdateMatrixColumn X) :
    Lockstep SameHashing (Cc.SparseUpdateMatrixImpl.buildRowsHashing column)
      (buildRowHashing column) := by
  unfold Cc.SparseUpdateMatrixImpl.buildRowsHashing buildRowHashing
  rw [enumerateChoices_map]
  exact DistributedConsistentHashing.new_lockstep _

/-- Both languages build sparse matrices that do the same. -/
theorem build_aligned {served : X.Event → Prop}
    {config : SparseUpdateMatrix X}
    (separate : ∀ mask ∈ config.hashFieldMask,
      ColumnsSeparate served config.attrs mask) :
    Aligned (fun updater updater' => ∀ event, served event →
        Lockstep (· = ·) (updater.update event) (updater'.update event))
      (Cc.SparseUpdateMatrixImpl.build config) (build config) := by
  have checked : Aligned (fun _ _ => True)
      (config.columns.forM Cc.SparseUpdateMatrixImpl.checkColumn)
      (config.columns.forM checkColumn) := fun _ _ _ _ => trivial
  have rowHashings : Lockstep (List.Forall₂ SameHashing)
      (config.columns.mapM Cc.SparseUpdateMatrixImpl.buildRowsHashing)
      (config.columns.mapM buildRowHashing) :=
    .mapM (List.forall₂_same.mpr fun column _ =>
      buildRowHashing_lockstep column)
  unfold Cc.SparseUpdateMatrixImpl.build build
  split_ifs
  · exact .throw _ _
  refine checked.bind fun _ _ _ => ?_
  refine (MatrixMatchers.build_aligned separate).bind
    fun matchers matchers' columns => ?_
  refine rowHashings.aligned.bind fun hashings hashings' same =>
    .ok fun event isServed => ?_
  unfold Cc.SparseUpdateMatrixImpl.update update
  refine (selectFromMatrix_lockstep columns same config.randomSeed
    isServed).bind fun indexes indexes' same => ?_
  rw [same.1, same.2, Cc.kNoMatchingIndex]
  split_ifs with unmatched passes outside
  · exact .refl _
  · exact .errors _ _
  · rw [Cc.elementAt_of_outside outside]
    exact .errors _ _
  · exact .bind_eq (.refl _) fun rows => mergeRow_lockstep rows _ event

end SparseUpdateMatrixImpl

/-! ## Conditional updates -/

namespace ConditionalMergeImpl

theorem buildFilters_eq {nodes : List (ConditionalMergeNode X)}
    {built : List (X.FieldFilter × X.Event)} {filters : List X.FieldFilter}
    (builtEq : nodes.mapM Cc.ConditionalMergeImpl.buildNode = .ok built)
    (filtersEq : nodes.mapM buildFilter = .ok filters) :
    filters = built.map Prod.fst ∧
      nodes.map (·.update.getD X.emptyEvent) = built.map Prod.snd := by
  have related := mapM_eq_ok_iff.mp filtersEq
  induction mapM_eq_ok_iff.mp builtEq generalizing filters with
  | nil =>
    cases related
    exact ⟨rfl, rfl⟩
  | @cons node _ nodes built nodeBuilt rest inductionHypothesis =>
    cases related with
    | cons filterBuilt rest' =>
      obtain ⟨filterEq, updateEq⟩ :=
        (buildFilter_lockstep node).aligned _ _ nodeBuilt filterBuilt
      obtain ⟨filtersEq, updatesEq⟩ := inductionHypothesis
        (mapM_eq_ok_iff.mpr rest) (mapM_eq_ok_iff.mpr rest') rest'
      rw [List.map_cons, List.map_cons, List.map_cons, filterEq, filtersEq,
        updateEq, updatesEq]
      exact ⟨rfl, rfl⟩

/-- Both languages build merges that do the same. -/
theorem build_aligned (config : ConditionalMerge X) :
    Aligned (fun updater updater' => ∀ event, Lockstep (· = ·)
        (updater.update event) (updater'.update event))
      (Cc.ConditionalMergeImpl.build config) (build config) := by
  unfold Cc.ConditionalMergeImpl.build build
  split_ifs
  · exact .throw _ _
  intro updater updater' built built'
  obtain ⟨nodes, nodesEq, updaterEq⟩ := bind_eq_ok_iff.mp built
  obtain ⟨filters, filtersEq, updaterEq'⟩ := bind_eq_ok_iff.mp built'
  rw [← Except.ok.inj updaterEq, ← Except.ok.inj updaterEq']
  obtain ⟨rfl, updatesEq⟩ := buildFilters_eq nodesEq filtersEq
  intro event
  unfold Cc.ConditionalMergeImpl.update update
  rw [@FieldFiltersMatcher.getFirstMatch_eq X ⟨_⟩ _ rfl, updatesEq]
  simp only [Cc.kNoMatchingIndex]
  split_ifs
  · exact .refl _
  · exact .errors _ _
  · exact .errors _ _
  · exact .refl _

end ConditionalMergeImpl

namespace ConditionalAssignmentImpl

theorem getAssigner_aligned (type : FieldType) :
    Aligned (· = ·) (Cc.getAssignmentFunction X type.cppType)
      (getAssigner X type) := by
  cases type
  case int32 | uint32 | int64 | uint64 | bool | enum | string =>
    exact .ok rfl
  all_goals exact fun _ _ _ same => nomatch same

/-- The same fields are assigned in the same way. -/
def SameAssignment (assignment : Cc.FieldAssignment X)
    (assignment' : FieldAssignment X) : Prop :=
  assignment'.source = assignment.source ∧
    assignment'.target = assignment.target ∧
    assignment'.assigner = assignment.assign

theorem buildAssignment_aligned (config : Assignment) :
    Aligned SameAssignment
      (Cc.ConditionalAssignmentImpl.buildAssignment (X := X) config)
      (buildAssignment config) := by
  obtain ⟨sourceField, targetField⟩ := config
  unfold Cc.ConditionalAssignmentImpl.buildAssignment buildAssignment
  cases sourceField with
  | none => exact .throw _ _
  | some sourceField =>
    cases targetField with
    | none => exact .throw _ _
    | some targetField =>
      refine .bind_same fun source => .bind_same fun target => ?_
      split_ifs
      · exact .throw _ _
      · exact .throw _ _
      · exact fun _ _ _ same => nomatch same
      · exact (getAssigner_aligned _).bind_eq
          fun assign => .ok ⟨rfl, rfl, rfl⟩

theorem foldl_assign_eq {assignments : List (Cc.FieldAssignment X)}
    {assignments' : List (FieldAssignment X)}
    (same : List.Forall₂ SameAssignment assignments assignments')
    (event : X.Event) :
    assignments.foldl (fun event assignment =>
        assignment.assign event assignment.source assignment.target) event =
      assignments'.foldl (fun event assignment =>
        assignment.assigner event assignment.source assignment.target)
        event := by
  induction same generalizing event with
  | nil => rfl
  | cons head _ inductionHypothesis =>
    obtain ⟨sourceEq, targetEq, assignerEq⟩ := head
    rw [List.foldl_cons, List.foldl_cons, sourceEq, targetEq, assignerEq]
    exact inductionHypothesis _

/-- Both languages build conditional assignments that do the same. -/
theorem build_aligned (config : ConditionalAssignment X) :
    Aligned (fun updater updater' => ∀ event, Lockstep (· = ·)
        (updater.update event) (updater'.update event))
      (Cc.ConditionalAssignmentImpl.build config) (build config) := by
  unfold Cc.ConditionalAssignmentImpl.build build
  cases config.condition with
  | none => exact .throw _ _
  | some condition =>
    simp only
    split_ifs
    · exact .throw _ _
    refine .bind_same fun filter => ?_
    have assignments : Aligned (List.Forall₂ (@SameAssignment X))
        (config.assignments.mapM
          Cc.ConditionalAssignmentImpl.buildAssignment)
        (config.assignments.mapM buildAssignment) :=
      .mapM (List.forall₂_same.mpr fun assignment _ =>
        buildAssignment_aligned assignment)
    refine assignments.bind fun assignments assignments' same =>
      .ok fun event => ?_
    unfold Cc.ConditionalAssignmentImpl.update update
    split_ifs
    · exact .ok (foldl_assign_eq same event)
    · exact .refl _

end ConditionalAssignmentImpl

namespace GeometricShredderImpl

/-- The updaters hold the same fields. -/
structure SameShredder (updater : Cc.GeometricShredderImpl X)
    (updater' : GeometricShredderImpl X) : Prop where
  psi : updater'.psi = updater.psi
  randomnessField : updater'.randomnessField = updater.randomnessField
  targetField : updater'.targetField = updater.targetField
  randomSeed : updater'.randomSeed = updater.randomSeed

/-- Both languages build the same shredder. -/
theorem build_aligned (config : GeometricShredder) :
    Aligned SameShredder (Cc.GeometricShredderImpl.build (X := X) config)
      (build config) := by
  unfold Cc.GeometricShredderImpl.build build
  split_ifs <;> try exact .throw _ _
  refine .bind_same fun randomnessField => ?_
  split_ifs
  · exact .throw _ _
  · exact .throw _ _
  · exact fun _ _ _ same => nomatch same
  refine .bind_same fun targetField => ?_
  split_ifs
  · exact .throw _ _
  · exact .throw _ _
  · exact fun _ _ _ same => nomatch same
  · exact .ok ⟨rfl, rfl, rfl, rfl⟩

variable {updater : Cc.GeometricShredderImpl X}
  {updater' : GeometricShredderImpl X}

theorem shredHash_agree (same : SameShredder updater updater')
    (event : X.Event) :
    Agree (· = ·) (updater.shredHash event) (updater'.shredHash event) := by
  unfold Cc.GeometricShredderImpl.shredHash shredHash
  rw [same.psi, same.randomnessField]
  split_ifs
  · exact .refl _
  · cases X.getValueFromProto .uint64 event updater.randomnessField with
    | none => exact .errors _ _
    | some randomnessValue => exact .refl _
  · cases X.getValueFromProto .uint64 event updater.randomnessField with
    | none => exact .errors _ _
    | some randomnessValue => exact castToUInt64_agree _

/-- Both languages shred alike, unless a conversion is out of range. -/
theorem update_agree (same : SameShredder updater updater')
    (event : X.Event) :
    Agree (· = ·) (updater.update event) (updater'.update event) := by
  unfold Cc.GeometricShredderImpl.update update
  refine (shredHash_agree same event).bind_eq fun shredHash => ?_
  rw [same.targetField, same.randomSeed]
  split_ifs
  · exact .refl _
  · cases X.getValueFromProto .uint64 event updater.targetField with
    | none => exact .errors _ _
    | some targetValue => exact .refl _

end GeometricShredderImpl

end VirtualPeople.Kotlin
