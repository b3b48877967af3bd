import VirtualPeople.Kotlin.UpdaterAgreement

/-!
# Branches of both languages

Two branches whose children, updaters and multiplicity agree on a set of events
do the same to an event of the set, as long as updates and clones of events of
the set stay in it.  C++ labels all the clones before it folds them back into the event, and
Kotlin folds each of them back once it is labeled.
-/

namespace VirtualPeople.Kotlin

variable {X : Externals}

variable {served : X.Event → Prop}

theorem applyToCopy_agree {behaviour behaviour' : Step X.Event Unit}
    (agree : Step.AgreeOn served (· = ·) behaviour behaviour') {event : X.Event}
    (isServed : served event) :
    Agree (· = ·) (Cc.applyToCopy behaviour event)
      (Cc.applyToCopy behaviour' event) := by
  unfold Cc.applyToCopy
  have outcomes := agree event isServed
  generalize behaviour event = first at outcomes ⊢
  generalize behaviour' event = second at outcomes ⊢
  cases outcomes with
  | outOfRange final second => exact .conversion _
  | errors fault fault' final final' => exact .errors _ _
  | ok values final => exact .ok rfl

theorem isEmpty_eq {α β : Type} {related : α → β → Prop} {elements : List α}
    {elements' : List β} (pointwise : List.Forall₂ related elements elements') :
    elements'.isEmpty = elements.isEmpty := by
  cases pointwise <;> rfl

namespace BranchNodeImpl

/-- The clones of a served event, and the event of a single person, are
served. -/
structure ClonesStayIn (served : X.Event → Prop)
    (multiplicity : Cc.MultiplicityImpl X) : Prop where
  onePerson : ∀ event, served event →
    served (X.setValueToProto .int32 event multiplicity.personIndexField 0)
  clones : ∀ event cloneCount, served event →
    multiplicity.computeEventMultiplicity event = .ok cloneCount →
      ∀ personIndex < cloneCount.toInt.toNat,
        served (Cc.BranchNodeImpl.cloneEvent multiplicity event personIndex)

/-- The branches hold nodes and updaters that agree on the served events, and
choose alike. -/
structure SameBranch (served : X.Event → Prop)
    (impl : Cc.BranchNodeImpl X (Cc.Behaviour X)) (impl' : BranchNodeImpl X) :
    Prop where
  childNodes : List.Forall₂
    (fun behaviour node => Step.AgreeOn served (· = ·) behaviour node.apply)
    impl.childNodes impl'.childNodes
  selection : SameSelection (impl.hashing, impl.matcher)
    (impl'.hashing, impl'.matcher)
  randomSeed : impl'.randomSeed = impl.randomSeed
  updaters : List.Forall₂ (fun updater updater' =>
      Step.AgreeOn served (· = ·) updater.update updater'.update)
    impl.updaters impl'.updaters
  updatesStay : ∀ updater ∈ impl.updaters, updater.update.StaysIn served
  multiplicity : Option.Rel MultiplicityImpl.SameMultiplicity
    impl.multiplicity impl'.multiplicity
  clonesStay : ∀ multiplicity ∈ impl.multiplicity,
    ClonesStayIn served multiplicity

namespace SameBranch

variable {impl : Cc.BranchNodeImpl X (Cc.Behaviour X)}
  {impl' : BranchNodeImpl X}

/-- Both languages select the same index, or C++ fails where Kotlin fails too
or selects -1. -/
theorem selectedIndex_cases (same : SameBranch served impl impl') (event : X.Event) :
    (∃ index, impl.selectIndex event = .ok index ∧
        impl'.selectedIndex event = .ok index) ∨
      (∃ fault, impl.selectIndex event = .error fault) ∧
        ((∃ fault, impl'.selectedIndex event = .error fault) ∨
          impl'.selectedIndex event = .ok (-1)) := by
  obtain ⟨hashings, matchers⟩ := same.selection
  unfold Cc.BranchNodeImpl.selectIndex selectedIndex
  rw [same.randomSeed]
  generalize impl.hashing = hashing at hashings ⊢
  generalize impl'.hashing = hashing' at hashings ⊢
  generalize impl.matcher = matcher at matchers ⊢
  generalize impl'.matcher = matcher' at matchers ⊢
  cases hashings with
  | some sameHashing =>
    refine Or.inl ⟨_, rfl, ?_⟩
    simp only [UInt64.toUInt64_toInt64,
      DistributedConsistentHashing.hash_eq sameHashing]
    rfl
  | none =>
    cases matchers with
    | some sameFilters =>
      simp only [FieldFiltersMatcher.getFirstMatch_eq sameFilters]
      split_ifs with noMatch
      · rw [noMatch]
        exact Or.inr ⟨⟨_, rfl⟩, Or.inr rfl⟩
      · exact Or.inl ⟨_, rfl, rfl⟩
    | none => exact Or.inr ⟨⟨_, rfl⟩, Or.inl ⟨_, rfl⟩⟩

/-- An index of -1 fails in both languages, at the selection or at the check of
the range. -/
theorem selectChild_lockstep (same : SameBranch served impl impl')
    (event : X.Event) :
    Lockstep
      (fun behaviour node => Step.AgreeOn served (· = ·) behaviour node.apply)
      (impl.selectChild event) (impl'.selectChild event) := by
  unfold Cc.BranchNodeImpl.selectChild selectChild
  rcases same.selectedIndex_cases event with
    ⟨index, indexEq, indexEq'⟩ | ⟨⟨fault, failed⟩, failed'⟩
  · rw [indexEq, indexEq']
    change Lockstep _ (if _ then _ else _)
      (if index = -1 then _ else if _ then _ else _)
    rw [← same.childNodes.length_eq]
    split_ifs with outside isNone isNone
    · exact .errors _ _
    · exact .errors _ _
    · omega
    · exact elementAt_lockstep same.childNodes index
  · rw [failed]
    rcases failed' with ⟨fault', failed'⟩ | noMatch
    · rw [failed']
      exact .errors _ _
    · rw [noMatch]
      exact .errors _ _

/-- Both languages apply the same child. -/
theorem applyChild_agree (same : SameBranch served impl impl') :
    Step.AgreeOn served (· = ·) impl.applyChild impl'.applyChild := by
  intro event isServed
  unfold Cc.BranchNodeImpl.applyChild applyChild
  rw [Step.run_bind_of_ok _ (Step.run_get event),
    Step.run_bind_of_ok _ (Step.run_get event)]
  exact .lift_bind (same.selectChild_lockstep event).excusing
    fun _ _ _ agree => agree event isServed

end SameBranch

/-! ## Clones -/

theorem applyToClone_run {impl' : BranchNodeImpl X} {clone labeled : X.Event}
    (found : Cc.applyToCopy impl'.applyChild clone = .ok labeled)
    (event : X.Event) :
    impl'.applyToClone clone event = .ok () (foldBack event labeled) := by
  unfold applyToClone
  rw [found]
  rfl

theorem applyToClone_run_error {impl' : BranchNodeImpl X} {clone : X.Event}
    {fault : Fault}
    (failed : Cc.applyToCopy impl'.applyChild clone = .error fault)
    (event : X.Event) :
    impl'.applyToClone clone event = .error fault event := by
  unfold applyToClone
  rw [failed]
  rfl

/-- Labeling all the clones and folding them back ends as the loop that does
both for one clone after the other. -/
theorem applyToClones_agreeAt
    {impl : Cc.BranchNodeImpl X (Cc.Behaviour X)} {impl' : BranchNodeImpl X}
    (agree : Step.AgreeOn served (· = ·) impl.applyChild impl'.applyChild)
    {clones : List X.Event} (areServed : ∀ clone ∈ clones, served clone)
    (start event : X.Event) :
    Step.AgreeAt (· = ·)
      ((Step.lift (clones.mapM (Cc.applyToCopy impl.applyChild)) >>=
        fun labeled =>
          set (labeled.foldl Cc.BranchNodeImpl.foldBack event)) start)
      (clones.forM impl'.applyToClone event) := by
  induction clones generalizing event with
  | nil => exact .ok rfl event
  | cons clone clones inductionHypothesis =>
    have ⟨headServed, tailServed⟩ := List.forall_mem_cons.mp areServed
    have labelings := applyToCopy_agree agree headServed
    rw [List.mapM_cons]
    change Step.AgreeAt _ _ ((impl'.applyToClone clone >>= fun _ =>
      clones.forM impl'.applyToClone) event)
    generalize Cc.applyToCopy impl.applyChild clone = labeling at labelings ⊢
    generalize labelingEq' : Cc.applyToCopy impl'.applyChild clone = labeling'
      at labelings
    cases labelings with
    | excuse isConversion second =>
      rw [isConversion]
      exact .outOfRange start _
    | errors fault fault' =>
      rw [Step.run_bind_of_error _ (applyToClone_run_error labelingEq' event)]
      exact .errors _ _ _ _
    | @ok labeled _ same =>
      subst same
      rw [Step.run_bind_of_ok _ (applyToClone_run labelingEq' event)]
      have rest := inductionHypothesis tailServed (foldBack event labeled)
      generalize clones.mapM (Cc.applyToCopy impl.applyChild) = labeledRest
        at rest ⊢
      cases labeledRest <;> exact rest

theorem cloneEvent_eq {multiplicity : Cc.MultiplicityImpl X}
    {multiplicity' : MultiplicityImpl X}
    (same : MultiplicityImpl.SameMultiplicity multiplicity multiplicity')
    (event : X.Event) (personIndex : ℕ) :
    cloneEvent multiplicity' event personIndex =
      Cc.BranchNodeImpl.cloneEvent multiplicity event personIndex := by
  unfold cloneEvent Cc.BranchNodeImpl.cloneEvent
  simp only [UInt64.toUInt64_toInt64, same.personIndexField,
    MultiplicityImpl.getFingerprintForIndex_eq same]

namespace SameBranch

variable {impl : Cc.BranchNodeImpl X (Cc.Behaviour X)}
  {impl' : BranchNodeImpl X}

/-- Both languages label the same clones. -/
theorem applyMultiplicity_agree (same : SameBranch served impl impl')
    {multiplicity : Cc.MultiplicityImpl X}
    {multiplicity' : MultiplicityImpl X}
    (sameMultiplicity :
      MultiplicityImpl.SameMultiplicity multiplicity multiplicity')
    (stays : ClonesStayIn served multiplicity) :
    Step.AgreeOn served (· = ·) (impl.applyMultiplicity multiplicity)
      (impl'.applyMultiplicity multiplicity') := by
  intro event isServed
  unfold Cc.BranchNodeImpl.applyMultiplicity applyMultiplicity
  rw [Step.run_bind_of_ok _ (Step.run_get event),
    Step.run_bind_of_ok _ (Step.run_get event)]
  refine .lift_bind (MultiplicityImpl.computeEventMultiplicity_agree
    sameMultiplicity event) fun cloneCount _ isCount sameCount => ?_
  subst sameCount
  rw [sameMultiplicity.personIndexField,
    funext (cloneEvent_eq sameMultiplicity event)]
  split_ifs
  · exact same.applyChild_agree _ (stays.onePerson event isServed)
  · refine applyToClones_agreeAt same.applyChild_agree ?_ event event
    intro clone member
    obtain ⟨personIndex, below, rfl⟩ := List.mem_map.mp member
    exact stays.clones event cloneCount isServed isCount personIndex
      (List.mem_range.mp below)

/-- Both languages apply the same branch node alike. -/
theorem apply_agree (same : SameBranch served impl impl') :
    Step.AgreeOn served (· = ·) impl.apply impl'.apply := by
  have multiplicities := same.multiplicity
  have clonesStay := same.clonesStay
  unfold Cc.BranchNodeImpl.apply apply
  generalize impl.multiplicity = multiplicity at multiplicities clonesStay ⊢
  generalize impl'.multiplicity = multiplicity' at multiplicities ⊢
  cases multiplicities with
  | some sameMultiplicity =>
    change Step.AgreeOn served _ (if impl.updaters.isEmpty then _ else _)
      (if impl'.updaters.isEmpty then _ else _)
    rw [isEmpty_eq same.updaters]
    split_ifs
    · exact same.applyMultiplicity_agree sameMultiplicity (clonesStay _ rfl)
    · exact fun event _ => .errors _ _ event event
  | none =>
    exact (Step.AgreeOn.forM same.updaters same.updatesStay).bind
      (Step.StaysIn.forM same.updatesStay) fun _ _ _ => same.applyChild_agree

end SameBranch

end BranchNodeImpl

end VirtualPeople.Kotlin
