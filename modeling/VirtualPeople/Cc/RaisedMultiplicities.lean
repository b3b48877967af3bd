import VirtualPeople.Binary64.Order
import VirtualPeople.Cc.Provenance
import VirtualPeople.Cc.Variants

/-!
# Raised multiplicities

When multiplicities of a model are raised, a labeling keeps all people and pools
that it gave before, in their order, and only puts others in between: the clones
of each event are those from before and further ones after them.
-/

namespace VirtualPeople

open Binary64

variable {X : Externals}

/-! ## Raised configurations -/

/-- The expected number of clones is the same or given by a larger double. -/
inductive MultiplicityRef.Raised : MultiplicityRef → MultiplicityRef → Prop
  | same (reference : MultiplicityRef) : Raised reference reference
  | expectedMultiplicity {value value' : Float} (notLess : ¬value' < value) :
      Raised (.expectedMultiplicity value) (.expectedMultiplicity value')

/-- The other configuration differs in larger values only, which leave room for
one more clone below the largest integer. -/
structure Multiplicity.Raised (config config' : Multiplicity) : Prop where
  multiplicityRef : config.multiplicityRef.Raised config'.multiplicityRef
  personIndexField : config.personIndexField = config'.personIndexField
  randomSeed : config.randomSeed = config'.randomSeed
  maxValue : ∀ maxValue ∈ config.maxValue, ∀ maxValue' ∈ config'.maxValue,
    ¬maxValue' < maxValue ∧ maxValue < 2147483647.0 ∧
      maxValue' < 2147483647.0

/-- The action has the same updates, or a raised multiplicity. -/
inductive Action.Raised {Node : Type} : Action X Node → Action X Node → Prop
  | same (action : Action X Node) : Raised action action
  | multiplicity {config config' : Multiplicity} (raised : config.Raised config') :
      Raised (.multiplicity config) (.multiplicity config')

/-- Two configurations that differ in raised multiplicities only. -/
inductive CompiledNode.Raised : CompiledNode X → CompiledNode X → Prop
  | same {index index' : Option UInt32} (type : NodeType X (CompiledNode X)) :
      Raised (.mk index type) (.mk index' type)
  | branchNode {index index' : Option UInt32}
      {config config' : BranchNode X (CompiledNode X)}
      (randomSeed : config.randomSeed = config'.randomSeed)
      (action : config.action.Raised config'.action)
      (sameShape : List.Forall₂ Branch.SameShape config.branches config'.branches)
      (children : ∀ pair ∈ config.branches.zip config'.branches,
        ∀ child child', pair.1.childNode = .node child →
          pair.2.childNode = .node child' → Raised child child') :
      Raised (.mk index (.branchNode config)) (.mk index' (.branchNode config'))

namespace Cc

/-! ## Raised multiplicities -/

namespace MultiplicityImpl

/-- The clones of an event by the other multiplicity begin with the clones by
this one. -/
structure Raised (multiplicity multiplicity' : MultiplicityImpl X) : Prop where
  personIndexField :
    multiplicity.personIndexField = multiplicity'.personIndexField
  randomSeed : multiplicity.randomSeed = multiplicity'.randomSeed
  count_le : ∀ event count count',
    multiplicity.computeEventMultiplicity event = .ok count →
    multiplicity'.computeEventMultiplicity event = .ok count' →
      count.toInt ≤ count'.toInt

theorem Raised.refl (multiplicity : MultiplicityImpl X) :
    multiplicity.Raised multiplicity where
  personIndexField := rfl
  randomSeed := rfl
  count_le event count count' counted counted' := by
    rw [counted, Except.ok.injEq] at counted'
    rw [counted']

variable {multiplicity multiplicity' : MultiplicityImpl X} {event : X.Event}

/-- A clone is the same under a raised multiplicity. -/
theorem Raised.cloneEvent_eq (raised : multiplicity.Raised multiplicity')
    (event : X.Event) (index : ℕ) :
    BranchNodeImpl.cloneEvent multiplicity event index =
      BranchNodeImpl.cloneEvent multiplicity' event index := by
  unfold BranchNodeImpl.cloneEvent
  rw [getFingerprintForIndex_congr raised.randomSeed, raised.personIndexField]

/-- The capped expectation is a number when the clones are counted. -/
theorem exists_denotes_capped {count : Int32}
    (counted : multiplicity.computeEventMultiplicity event = .ok count) :
    ∃ value x, multiplicity.cappedMultiplicity event = .ok value ∧
      Denotes value x ∧
      computeBimodalInteger value (multiplicity.eventSeed event) = .ok count := by
  obtain ⟨expected, expectedEq, rest⟩ := bind_eq_ok_iff.mp counted
  obtain ⟨value, cappedEq, rest⟩ := bind_eq_ok_iff.mp rest
  split_ifs at rest with negative
  obtain ⟨x, denotes⟩ := exists_denotes (finite_of_bimodal rest) negative
  exact ⟨value, x, bind_eq_ok_iff.mpr ⟨expected, expectedEq, cappedEq⟩, denotes,
    rest⟩

/-- A larger capped expectation counts at least as many clones. -/
theorem count_le_of_capped_le
    (sameSeed : multiplicity.randomSeed = multiplicity'.randomSeed)
    {value value' : Float} {x x' : ℝ} (denotes : Denotes value x)
    (denotes' : Denotes value' x') (le : x ≤ x') (lt : x' < 2 ^ 31 - 1)
    {count count' : Int32}
    (rounded : computeBimodalInteger value (multiplicity.eventSeed event) =
      .ok count)
    (rounded' : computeBimodalInteger value' (multiplicity'.eventSeed event) =
      .ok count') :
    count.toInt ≤ count'.toInt := by
  have floorLt {y : ℝ} (yLt : y < 2 ^ 31 - 1) : ⌊y⌋ < 2 ^ 31 := by
    rw [Int.floor_lt]
    push_cast
    linarith
  have seedEq : multiplicity.eventSeed event = multiplicity'.eventSeed event :=
    congrArg (fun randomSeed => X.fingerprint (randomSeed ++
      toString (event.actingFingerprint.getD 0))) sameSeed
  rw [computeBimodalInteger_eq denotes (floorLt (le.trans_lt lt))] at rounded
  rw [computeBimodalInteger_eq denotes' (floorLt lt)] at rounded'
  rw [← Except.ok.inj rounded, ← Except.ok.inj rounded',
    toInt_exactBimodalInteger denotes (exactBimodalInteger_lt (le.trans_lt lt) _),
    toInt_exactBimodalInteger denotes' (exactBimodalInteger_lt lt _), seedEq]
  exact exactBimodalInteger_mono le _

/-- The capped expectation is the maximum, or the expectation itself. -/
theorem capMultiplicity_cases {expected value : Float}
    (capped : multiplicity.capMultiplicity expected = .ok value) :
    value = multiplicity.maxValue ∧ multiplicity.maxValue < expected ∨
      value = expected ∧ ¬multiplicity.maxValue < expected := by
  unfold capMultiplicity at capped
  split_ifs at capped with above isCapped
  · exact .inl ⟨(Except.ok.inj capped).symm, above⟩
  · exact .inr ⟨(Except.ok.inj capped).symm, above⟩

theorem represents_mostClones : Binary64.Represents 2147483647.0 (2 ^ 31 - 1) :=
  .of_unpack ((2 ^ 31 - 1) * 2 ^ 22) (-22) (by decide) rfl (by norm_num)

/-- The least of the expectation and the maximum grows with both. -/
theorem capped_le {expected expected' value value' : Float} {x x' : ℝ}
    (expectedLe : expected' = expected ∨ ¬expected' < expected)
    (maxLe : ¬multiplicity'.maxValue < multiplicity.maxValue)
    (maxLt : multiplicity.maxValue < 2147483647.0)
    (capped : multiplicity.capMultiplicity expected = .ok value)
    (capped' : multiplicity'.capMultiplicity expected' = .ok value')
    (denotes : Denotes value x) (denotes' : Denotes value' x') : x ≤ x' := by
  rcases capMultiplicity_cases capped with ⟨rfl, above⟩ | ⟨rfl, notAbove⟩
  · rcases capMultiplicity_cases capped' with ⟨rfl, -⟩ | ⟨rfl, -⟩
    · exact denotes.le_of_not_lt denotes' maxLe
    · -- The expectation is above the maximum and not above the other one.
      have notNegative : ¬expected < 0.0 := fun negative =>
        denotes.not_lt_of_lt_zero negative above
      have finite : truncate expected ≠ none := by
        intro infinite
        rcases expectedLe with rfl | notLess
        · rw [denotes'.truncate] at infinite
          contradiction
        · exact notLess (denotes'.lt_of_infinite infinite above)
      obtain ⟨z, denotesExpected⟩ := exists_denotes finite notNegative
      refine (denotes.lt_of_lt denotesExpected above).le.trans
        (denotesExpected.le_of_not_lt denotes' ?_)
      rcases expectedLe with rfl | notLess
      · exact denotesExpected.not_lt_self
      · exact notLess
  · rcases capMultiplicity_cases capped' with ⟨rfl, -⟩ | ⟨rfl, -⟩
    · rcases Denotes.lt_zero_or_exists maxLt with negative | ⟨z, denotesMax⟩
      · exact absurd (denotes.lt_of_lt_zero negative) notAbove
      · exact (denotes.le_of_not_lt denotesMax notAbove).trans
          (denotesMax.le_of_not_lt denotes' maxLe)
    · refine denotes.le_of_not_lt denotes' ?_
      rcases expectedLe with rfl | notLess
      · exact denotes.not_lt_self
      · exact notLess

/-- A maximum below the largest integer keeps the capped expectation below it. -/
theorem capped_lt {expected value : Float} {x : ℝ}
    (maxLt : multiplicity.maxValue < 2147483647.0)
    (capped : multiplicity.capMultiplicity expected = .ok value)
    (denotes : Denotes value x) : x < 2 ^ 31 - 1 := by
  rcases capMultiplicity_cases capped with ⟨rfl, -⟩ | ⟨rfl, notAbove⟩
  · exact denotes.lt_of_lt (.positive represents_mostClones) maxLt
  · rcases Denotes.lt_zero_or_exists maxLt with negative | ⟨z, denotesMax⟩
    · exact absurd (denotes.lt_of_lt_zero negative) notAbove
    · exact (denotes.le_of_not_lt denotesMax notAbove).trans_lt
        (denotesMax.lt_of_lt (.positive represents_mostClones) maxLt)

/-- The fields of a built multiplicity come from its configuration. -/
theorem fields_of_build {config : Multiplicity}
    (built : build config = .ok multiplicity) :
    buildExtractor config = .ok multiplicity.multiplicityExtractor ∧
      ∃ field, buildPersonIndexField (X := X) config = .ok field ∧
        multiplicity.personIndexField = field.val := by
  obtain ⟨extractor, extractorEq, rest⟩ := bind_eq_ok_iff.mp built
  obtain ⟨field, fieldEq, rest⟩ := bind_eq_ok_iff.mp rest
  split at rest
  · contradiction
  · contradiction
  · contradiction
  · rw [← Except.ok.inj rest]
    exact ⟨extractorEq, field, fieldEq, rfl⟩

/-- A raised expectation is not smaller. -/
theorem expected_of_raised {config config' : Multiplicity}
    (raised : config.multiplicityRef.Raised config'.multiplicityRef)
    (built : buildExtractor config = .ok multiplicity.multiplicityExtractor)
    (built' : buildExtractor config' = .ok multiplicity'.multiplicityExtractor)
    {expected expected' : Float}
    (found : multiplicity.expectedMultiplicity event = .ok expected)
    (found' : multiplicity'.expectedMultiplicity event = .ok expected') :
    expected' = expected ∨ ¬expected' < expected := by
  unfold expectedMultiplicity at found found'
  unfold buildExtractor at built built'
  generalize config.multiplicityRef = reference at raised built
  generalize config'.multiplicityRef = reference' at raised built'
  cases raised with
  | same =>
    rw [built, Except.ok.injEq] at built'
    rw [← built', found, Except.ok.injEq] at found'
    exact .inl found'.symm
  | expectedMultiplicity notLess =>
    rw [← Except.ok.inj built] at found
    rw [← Except.ok.inj built'] at found'
    rw [← Except.ok.inj found, ← Except.ok.inj found']
    exact .inr notLess

/-- Raised configurations are built to raised multiplicities. -/
theorem Raised.of_build {config config' : Multiplicity}
    (raised : config.Raised config') (built : build config = .ok multiplicity)
    (built' : build config' = .ok multiplicity') :
    multiplicity.Raised multiplicity' := by
  obtain ⟨extractorEq, field, fieldEq, sameField⟩ := fields_of_build built
  obtain ⟨extractorEq', field', fieldEq', sameField'⟩ := fields_of_build built'
  obtain ⟨maxLe, maxLt, maxLt'⟩ := raised.maxValue _ (maxValue_of_build built) _
    (maxValue_of_build built')
  have sameSeed : multiplicity.randomSeed = multiplicity'.randomSeed := by
    have seeds := raised.randomSeed
    rw [randomSeed_of_build built, randomSeed_of_build built'] at seeds
    exact Option.some.inj seeds
  refine ⟨?_, sameSeed, ?_⟩
  · unfold buildPersonIndexField at fieldEq fieldEq'
    rw [raised.personIndexField, fieldEq', Except.ok.injEq] at fieldEq
    rw [sameField, sameField', fieldEq]
  · intro event count count' counted counted'
    obtain ⟨value, x, capped, denotes, rounded⟩ := exists_denotes_capped counted
    obtain ⟨value', x', capped', denotes', rounded'⟩ :=
      exists_denotes_capped counted'
    obtain ⟨expected, found, capped⟩ := bind_eq_ok_iff.mp capped
    obtain ⟨expected', found', capped'⟩ := bind_eq_ok_iff.mp capped'
    have expectedLe := expected_of_raised raised.multiplicityRef extractorEq
      extractorEq' found found'
    exact count_le_of_capped_le sameSeed denotes denotes'
      (capped_le expectedLe maxLe maxLt capped capped' denotes denotes')
      (capped_lt maxLt' capped' denotes') rounded rounded'

end MultiplicityImpl

/-! ## Raised trees -/

/-- Two trees that differ in raised multiplicities only. -/
inductive ModelNode.Raised : ModelNode X → ModelNode X → Prop
  | leafNode (leaf : LeafNode) : Raised (.leafNode leaf) (.leafNode leaf)
  | branchNode {impl : BranchNodeImpl X (ModelNode X)}
      {childNodes' : List (ModelNode X)}
      {multiplicity' : Option (MultiplicityImpl X)}
      (multiplicities :
        Option.Rel MultiplicityImpl.Raised impl.multiplicity multiplicity')
      (sameLength : childNodes'.length = impl.childNodes.length)
      (children : ∀ pair ∈ impl.childNodes.zip childNodes',
        Raised pair.1 pair.2) :
      Raised (.branchNode impl) (.branchNode { impl with
        childNodes := childNodes', multiplicity := multiplicity' })

theorem MultiplicityImpl.optionRel_refl
    (multiplicity : Option (MultiplicityImpl X)) :
    Option.Rel MultiplicityImpl.Raised multiplicity multiplicity := by
  cases multiplicity with
  | none => exact .none
  | some multiplicity => exact .some (.refl multiplicity)

theorem ModelNode.Raised.refl (node : ModelNode X) : node.Raised node := by
  induction node using ModelNode.induction with
  | leaf leaf => exact .leafNode leaf
  | branch impl children _ =>
    have ⟨sameLength, pairs⟩ :=
      List.forall₂_iff_zip.mp (List.forall₂_same.mpr children)
    exact @branchNode _ impl _ _
      (MultiplicityImpl.optionRel_refl impl.multiplicity) sameLength
      fun pair member => pairs member

/-- The action of a branch is built to a raised multiplicity. -/
theorem raised_of_buildAction {action action' : Action X (CompiledNode X)}
    (raised : action.Raised action')
    {parts parts' : List (AttributesUpdaterInterface X (ModelNode X)) ×
      Option (MultiplicityImpl X)}
    (built : buildAction (action.map ModelNode.build) = .ok parts)
    (built' : buildAction (action'.map ModelNode.build) = .ok parts') :
    parts.1 = parts'.1 ∧
      Option.Rel MultiplicityImpl.Raised parts.2 parts'.2 := by
  cases raised with
  | same =>
    rw [built, Except.ok.injEq] at built'
    rw [built']
    exact ⟨rfl, MultiplicityImpl.optionRel_refl _⟩
  | multiplicity raised =>
    obtain ⟨multiplicity, implBuilt, partsEq⟩ := bind_eq_ok_iff.mp built
    obtain ⟨multiplicity', implBuilt', partsEq'⟩ := bind_eq_ok_iff.mp built'
    rw [← Except.ok.inj partsEq, ← Except.ok.inj partsEq']
    exact ⟨rfl, .some (.of_build raised implBuilt implBuilt')⟩

/-- A branch node with raised parts is assembled to a raised one. -/
theorem BranchNodeImpl.assemble_raised {selections : List (SelectBy X)}
    {randomSeed : String} {action action' : Action X (CompiledNode X)}
    (raised : action.Raised action') {childNodes childNodes' : List (ModelNode X)}
    (children : List.Forall₂ ModelNode.Raised childNodes childNodes') :
    Aligned (fun impl impl' =>
        ModelNode.Raised (.branchNode impl) (.branchNode impl'))
      (assemble selections randomSeed (action.map ModelNode.build) childNodes)
      (assemble selections randomSeed (action'.map ModelNode.build)
        childNodes') := by
  intro impl impl' assembled assembled'
  obtain ⟨selection, parts, rfl, seedEq⟩ := assemble_eq_ok_iff.mp assembled
  obtain ⟨selection', parts', rfl, seedEq'⟩ := assemble_eq_ok_iff.mp assembled'
  obtain ⟨updatersEq, multiplicities⟩ := raised_of_buildAction raised parts parts'
  obtain ⟨hashingEq, matcherEq⟩ :=
    Prod.mk.inj (Except.ok.inj (selection.symm.trans selection'))
  have sameImpl : impl' = { impl with
      childNodes := impl'.childNodes, multiplicity := impl'.multiplicity } := by
    rw [hashingEq, matcherEq, seedEq, ← seedEq']
    exact congrArg (fun updaters => { impl' with updaters := updaters })
      updatersEq.symm
  have ⟨sameLength, pairs⟩ := List.forall₂_iff_zip.mp children
  rw [sameImpl]
  exact .branchNode multiplicities sameLength.symm fun pair member =>
    pairs member

/-- Raised configurations are built to raised trees. -/
theorem ModelNode.Raised.of_build {config config' : CompiledNode X}
    (raised : config.Raised config') :
    Aligned Raised (build config).alone (build config').alone := by
  induction raised with
  | @same index index' type =>
    rw [alone_build_index index' index]
    intro node node' built built'
    rw [built, Except.ok.injEq] at built'
    rw [← built']
    exact .refl node
  | branchNode randomSeed action sameShape _ inductionHypothesis =>
    refine aligned_build_branchNode sameShape inductionHypothesis ?_
    intro selections childNodes childNodes' children
    rw [randomSeed]
    exact BranchNodeImpl.assemble_raised action children

/-! ## Outputs of raised trees -/

/-- Lists that contain others in order contain their concatenation. -/
theorem sublist_flatten_of_forall₂ {α : Type} {lists lists' : List (List α)}
    (each : List.Forall₂ List.Sublist lists lists') :
    lists.flatten.Sublist lists'.flatten := by
  induction each with
  | nil => exact .refl _
  | cons head _ inductionHypothesis => exact head.append inductionHypothesis

/-- Lists that are found for more indexes, and contain those found before,
together contain them in order. -/
theorem sublist_flatten_of_mapM {α : Type} {f g : ℕ → Result (List α)}
    {count count' : ℕ} (le : count ≤ count')
    (each : ∀ index < count, Aligned List.Sublist (f index) (g index)) :
    Aligned (fun lists lists' => lists.flatten.Sublist lists'.flatten)
      ((List.range count).mapM f) ((List.range count').mapM g) := by
  intro lists lists' mapped mapped'
  obtain ⟨more, rfl⟩ := Nat.exists_eq_add_of_le le
  rw [List.range_add, List.mapM_append] at mapped'
  obtain ⟨first, firstMapped, mapped'⟩ := bind_eq_ok_iff.mp mapped'
  obtain ⟨rest, -, listsEq⟩ := bind_eq_ok_iff.mp mapped'
  have sublists := Aligned.mapM
    (List.forall₂_same.mpr fun index member =>
      each index (List.mem_range.mp member)) lists first mapped firstMapped
  rw [← Except.ok.inj listsEq, List.flatten_append]
  exact (sublist_flatten_of_forall₂ sublists).trans
    (List.sublist_append_left _ _)

/-- The event acts with a fingerprint. -/
def hasFingerprint (event : X.Event) : Bool :=
  event.actingFingerprint.isSome

namespace BranchNodeImpl

/-- The person of an event with a fingerprint is a clone of it, also where it is
the only one. -/
theorem givenPerson_eq_cloneEvent {multiplicity : MultiplicityImpl X}
    {event : X.Event} (isSet : hasFingerprint event = true) {count : Int32}
    {index : ℕ} (inside : index < count.toInt.toNat) :
    givenPerson multiplicity count event index =
      cloneEvent multiplicity event index := by
  unfold givenPerson
  split_ifs with single
  · subst single
    obtain rfl : index = 0 := Nat.lt_one_iff.mp inside
    obtain ⟨fingerprint, set⟩ := Option.isSome_iff_exists.mp isSet
    have sameEvent : event =
        { event with actingFingerprint := some fingerprint } := by
      rw [← set]
    have cloned : cloneEvent multiplicity event 0 = X.setValueToProto .int32
        { event with actingFingerprint := some fingerprint }
        multiplicity.personIndexField 0 := by
      unfold cloneEvent
      rw [set]
      rfl
    rw [cloned, ← sameEvent]
  · rfl

/-- A clone has a fingerprint. -/
theorem hasFingerprint_cloneEvent {multiplicity : MultiplicityImpl X}
    (keeps : multiplicity.KeepsField hasFingerprint) (event : X.Event)
    (index : ℕ) : hasFingerprint (cloneEvent multiplicity event index) = true :=
  keeps _ _

/-- The children that branches select at one event are a pair of them. -/
theorem walkChild_aligned {ρ : Type} {related : ρ → ρ → Prop}
    {visit : ModelNode X → X.Event → Result ρ}
    {impl impl' : BranchNodeImpl X (ModelNode X)}
    (sameIndex : impl'.selectIndex = impl.selectIndex)
    (sameLength : impl'.childNodes.length = impl.childNodes.length)
    {event : X.Event}
    (pairs : ∀ pair ∈ impl.childNodes.zip impl'.childNodes,
      Aligned related (visit pair.1 event) (visit pair.2 event)) :
    Aligned related (impl.walkChild visit event)
      (impl'.walkChild visit event) := by
  intro value value' walked walked'
  obtain ⟨child, selected, visited⟩ := bind_eq_ok_iff.mp walked
  obtain ⟨child', selected', visited'⟩ := bind_eq_ok_iff.mp walked'
  obtain ⟨index, indexEq, selected⟩ := bind_eq_ok_iff.mp selected
  obtain ⟨index', indexEq', selected'⟩ := bind_eq_ok_iff.mp selected'
  rw [sameIndex, indexEq, Except.ok.injEq] at indexEq'
  rw [← indexEq', sameLength] at selected'
  split_ifs at selected selected'
  have found := elementAt_zip sameLength index
  rw [selected, selected'] at found
  cases found with
  | ok member => exact pairs (child, child') member value value' visited visited'

end BranchNodeImpl

/-- A raised tree gives all outputs that the tree gives, in their order. -/
theorem ModelNode.Raised.meaning_sublist {node node' : ModelNode X}
    (raised : node.Raised node') {isUpdate : Bool}
    (keeps : node.KeepsField hasFingerprint isUpdate) {event : X.Event}
    (isSet : hasFingerprint event = true) :
    Aligned List.Sublist (node.meaning givenPerson event)
      (node'.meaning givenPerson event) := by
  induction raised generalizing isUpdate event with
  | leafNode leaf =>
    intro outputs outputs' given given'
    rw [Except.ok.inj (given.symm.trans given')]
  | @branchNode impl childNodes' multiplicity' multiplicities sameLength _
      inductionHypothesis =>
    cases keeps with
    | branchNode single multiplicityKeeps updaters trees children =>
      let impl' : BranchNodeImpl X (ModelNode X) :=
        { impl with childNodes := childNodes', multiplicity := multiplicity' }
      have ofChild {event : X.Event} (isSet : hasFingerprint event = true) :
          Aligned List.Sublist (impl.walkChild (meaning givenPerson) event)
            (impl'.walkChild (meaning givenPerson) event) := by
        refine @BranchNodeImpl.walkChild_aligned X _ _ _ impl impl' rfl
          sameLength _ ?_
        intro pair member
        exact inductionHypothesis pair member
          (children pair.1 (List.of_mem_zip member).1) isSet
      intro outputs outputs' given given'
      rw [meaning_branchNode] at given given'
      change impl'.meaning _ _ _ event = .ok outputs' at given'
      unfold BranchNodeImpl.meaning at given given'
      have sameMultiplicity : impl'.multiplicity = multiplicity' := rfl
      cases multiplicityEq : impl.multiplicity with
      | none =>
        rw [multiplicityEq] at multiplicities given
        cases multiplicities
        rw [sameMultiplicity] at given'
        obtain ⟨updated, run, given⟩ := bind_eq_ok_iff.mp given
        obtain ⟨updated', run', given'⟩ := bind_eq_ok_iff.mp given'
        obtain rfl := Except.ok.inj (run.symm.trans run')
        have kept := keepsField_updateEvent updaters
          (fun updater member root isRoot =>
            (trees updater member root isRoot).update rfl) event updated run
        exact ofChild (kept.trans isSet) outputs outputs' given given'
      | some multiplicity =>
        rw [multiplicityEq] at multiplicities given
        cases multiplicities with
        | @some _ multiplicity'' raised =>
          rw [sameMultiplicity] at given'
          simp only at given given'
          split_ifs at given given'
          obtain ⟨count, counted, given⟩ := bind_eq_ok_iff.mp given
          obtain ⟨count', counted', given'⟩ := bind_eq_ok_iff.mp given'
          obtain ⟨lists, mapped, given⟩ := bind_eq_ok_iff.mp given
          obtain ⟨lists', mapped', given'⟩ := bind_eq_ok_iff.mp given'
          have countLe := raised.count_le event count count' counted counted'
          rw [← Except.ok.inj given, ← Except.ok.inj given']
          rw [List.mapM_map] at mapped mapped'
          refine sublist_flatten_of_mapM (Int.toNat_le_toNat countLe) ?_ lists
            lists' mapped mapped'
          intro index inside
          have inside' : index < count'.toInt.toNat :=
            inside.trans_le (Int.toNat_le_toNat countLe)
          rw [Function.comp_apply, Function.comp_apply,
            BranchNodeImpl.givenPerson_eq_cloneEvent isSet inside,
            BranchNodeImpl.givenPerson_eq_cloneEvent isSet inside',
            ← raised.cloneEvent_eq]
          exact ofChild (BranchNodeImpl.hasFingerprint_cloneEvent
            (multiplicityKeeps multiplicity multiplicityEq) event index)

/-- A raised tree keeps the fields that the tree keeps. -/
theorem ModelNode.Raised.keepsField {α : Type} {field : X.Event → α}
    {node node' : ModelNode X} (raised : node.Raised node') {isUpdate : Bool}
    (keeps : node.KeepsField field isUpdate) :
    node'.KeepsField field isUpdate := by
  induction raised generalizing isUpdate with
  | leafNode leaf => exact keeps
  | @branchNode impl childNodes' multiplicity' multiplicities sameLength _
      inductionHypothesis =>
    cases keeps with
    | branchNode single multiplicityKeeps updaters trees children =>
      refine .branchNode ?_ ?_ updaters trees ?_
      · intro update
        have none := single update
        rw [none] at multiplicities
        cases multiplicities
        rfl
      · intro multiplicity member
        have isSome : multiplicity' = some multiplicity := member
        rw [isSome] at multiplicities
        cases multiplicityEq : impl.multiplicity with
        | none =>
          rw [multiplicityEq] at multiplicities
          cases multiplicities
        | some first =>
          rw [multiplicityEq] at multiplicities
          cases multiplicities with
          | some raised =>
            have keepsFirst := multiplicityKeeps first multiplicityEq
            unfold MultiplicityImpl.KeepsField at keepsFirst ⊢
            rwa [← raised.personIndexField]
      · intro child' member
        have inSecond : child' ∈ (impl.childNodes.zip childNodes').map Prod.snd := by
          rwa [List.map_snd_zip sameLength.le]
        obtain ⟨pair, inPairs, rfl⟩ := List.mem_map.mp inSecond
        exact inductionHypothesis pair inPairs
          (children pair.1 (List.of_mem_zip inPairs).1)

/-- An input with an event id is prepared with a fingerprint. -/
theorem Labeler.hasFingerprint_prepareEvent {input : X.Input}
    (hasEventId : input.eventId.isSome = true) (mode : LabelingMode) :
    hasFingerprint (prepareEvent input mode) = true := by
  obtain ⟨eventId, isEventId⟩ := Option.isSome_iff_exists.mp hasEventId
  cases input
  subst isEventId
  cases mode <;> rfl

/-- When multiplicities are raised, a labeling of an event with an id gives the
people and the pools that it gave before, in their order, among others. -/
theorem Labeler.label_of_raised {root root' : CompiledNode X}
    {labeler labeler' : Labeler X} (raised : root.Raised root')
    (built : build root = .ok labeler) (built' : build root' = .ok labeler')
    (keepsOutputs : labeler.root.KeepsField addedOutputs false)
    (keepsFingerprint : labeler.root.KeepsField hasFingerprint false)
    {input : X.Input} (hasEventId : input.eventId.isSome = true)
    {mode : LabelingMode}
    {output output' : LabelerOutput X}
    (labeled : labeler.label input mode = .ok output)
    (labeled' : labeler'.label input mode = .ok output') :
    output.people.Sublist output'.people ∧
      output.poolAssignments.Sublist output'.poolAssignments := by
  obtain ⟨node, nodeBuilt, labelerEq⟩ := bind_eq_ok_iff.mp built
  obtain ⟨node', nodeBuilt', labelerEq'⟩ := bind_eq_ok_iff.mp built'
  obtain rfl := Except.ok.inj labelerEq
  obtain rfl := Except.ok.inj labelerEq'
  have raisedNode := ModelNode.Raised.of_build raised node node' nodeBuilt
    nodeBuilt'
  obtain ⟨outputs, given, peopleEq, poolsEq⟩ :=
    exists_meaning_of_label keepsOutputs labeled
  obtain ⟨outputs', given', peopleEq', poolsEq'⟩ :=
    exists_meaning_of_label (raisedNode.keepsField keepsOutputs) labeled'
  have sublist := raisedNode.meaning_sublist keepsFingerprint
    (hasFingerprint_prepareEvent hasEventId mode) outputs outputs' given given'
  rw [peopleEq, peopleEq', poolsEq, poolsEq']
  exact ⟨sublist.filterMap _, sublist.filterMap _⟩

/-- A second person for an event in the mode of pool identities. -/
theorem Labeler.label_of_raised_secondPerson :
    ∃ labeler labeler' output output',
      build (personsBranch 1.0 [(.isTrue, onePersonPool)]) = .ok labeler ∧
      build (personsBranch 2.0 [(.isTrue, onePersonPool)]) = .ok labeler' ∧
      labeler.label { rankedInput with eventId := some ⟨none, none⟩ }
        .poolIdentity = .ok output ∧
      labeler'.label { rankedInput with eventId := some ⟨none, none⟩ }
        .poolIdentity = .ok output' ∧
      output.poolAssignments.Sublist output'.poolAssignments ∧
      output.poolAssignments.length = 1 ∧
      output'.poolAssignments.length = 2 := by
  have raised : (personsBranch 1.0 [(.isTrue, onePersonPool)]).Raised
      (personsBranch 2.0 [(.isTrue, onePersonPool)]) := by
    refine .branchNode rfl (.multiplicity ⟨.expectedMultiplicity ?_, rfl, rfl, ?_⟩)
      (.cons rfl .nil) ?_
    · decide +kernel
    · rintro maxValue ⟨⟩ maxValue' ⟨⟩
      decide +kernel
    · intro pair member child child' isChild isChild'
      rw [List.mem_singleton.mp member] at isChild isChild'
      rw [← ChildNode.node.inj isChild, ← ChildNode.node.inj isChild']
      exact .same _
  have keeps {α : Type} {field : personExternals.Event → α}
      (personIndex : ∀ event index,
        field (personExternals.setValueToProto .int32 event () index) =
          field event) :
      ∀ labeler, build (personsBranch 1.0 [(.isTrue, onePersonPool)]) =
        .ok labeler → labeler.root.KeepsField field false := by
    intro labeler built
    rw [← Except.ok.inj built]
    exact .branchNode nofun (fun multiplicity member => by
        rw [← Option.some.inj member]
        exact personIndex) nofun nofun
      (List.forall_mem_cons.mpr ⟨.leafNode nofun, nofun⟩)
  refine ⟨_, _, _, _, rfl, rfl, rfl, rfl,
    (@label_of_raised personExternals _ _ _ _ raised rfl rfl
      (keeps (fun _ _ => rfl) _ rfl) (keeps (fun _ _ => rfl) _ rfl)
      { rankedInput with eventId := some ⟨none, none⟩ } rfl .poolIdentity _ _ rfl
      rfl).2, rfl, rfl⟩

end Cc

end VirtualPeople
