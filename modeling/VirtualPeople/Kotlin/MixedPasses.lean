import VirtualPeople.Cc.TwoPass
import VirtualPeople.Kotlin.LabelerAgreement

/-!
# Passes in both languages

The first pass over an input and the second one may be made by labelers in
different languages, built from one model.  Whichever language makes which pass,
the outputs are those of a run in C++, so that different ranks still come to
different ids across all inputs.
-/

namespace VirtualPeople.Kotlin

open Cc (TwoPassRun RankedPerson assignRanks)

variable {X : Externals}

/-- The language that a pass is made in. -/
inductive Language
  | cc
  | kotlin
  deriving DecidableEq

/-- The labeling in the language. -/
def Language.label (labeler : Cc.Labeler X) (labeler' : Labeler X) :
    Language → X.Input → LabelingMode → Result (LabelerOutput X)
  | .cc => labeler.label
  | .kotlin => labeler'.label

/-- Both passes over one input, each in its language. -/
structure MixedRun (labeler : Cc.Labeler X) (labeler' : Labeler X) where
  firstIn : Language
  secondIn : Language
  input : X.Input
  first : LabelerOutput X
  firstPass : firstIn.label labeler labeler' input .poolIdentity = .ok first
  localRanks : List UInt64
  localRanksLength : localRanks.length = first.poolAssignments.length
  second : LabelerOutput X
  secondPass : secondIn.label labeler labeler'
    (Cc.withRanks input (assignRanks first.poolAssignments localRanks)) .full =
      .ok second

namespace MixedRun

variable {served : X.Event → Prop} {labeler : Cc.Labeler X}
  {labeler' : Labeler X} (run : MixedRun labeler labeler')

/-- The rank assignments of the second pass. -/
def rankAssignments : List RankAssignment :=
  assignRanks run.first.poolAssignments run.localRanks

/-- No conversion is out of range when C++ makes the passes. -/
structure InRange : Prop where
  first : labeler.label run.input .poolIdentity ≠ .error .conversion
  second : labeler.label (Cc.withRanks run.input run.rankAssignments) .full ≠
    .error .conversion

/-- The events that both passes start from are served. -/
structure IsServed (served : X.Event → Prop) : Prop where
  first : served (Cc.Labeler.prepareEvent run.input .poolIdentity)
  second : served (Cc.Labeler.prepareEvent
    (Cc.withRanks run.input run.rankAssignments) .full)

/-- The runs have the same inputs, ranks and outputs. -/
structure Same (ccRun : TwoPassRun labeler) : Prop where
  input : ccRun.input = run.input
  first : ccRun.first = run.first
  localRanks : ccRun.localRanks = run.localRanks
  second : ccRun.second = run.second

theorem Same.rankAssignments_eq {run : MixedRun labeler labeler'}
    {ccRun : TwoPassRun labeler} (same : run.Same ccRun) :
    ccRun.rankAssignments = run.rankAssignments := by
  rw [TwoPassRun.rankAssignments, rankAssignments, same.first, same.localRanks]

variable {run}

/-- A pass of either language is one of C++. -/
theorem label_of_pass {input : X.Input} {mode : LabelingMode}
    (agree : Agree (· = ·) (labeler.label input mode)
      (labeler'.label input mode))
    {language : Language} {output : LabelerOutput X}
    (pass : language.label labeler labeler' input mode = .ok output)
    (inRange : labeler.label input mode ≠ .error .conversion) :
    labeler.label input mode = .ok output := by
  cases language with
  | cc => exact pass
  | kotlin =>
    refine (agree.eq_ok_iff ?_ output).mpr pass
    intro fault failed isConversion
    exact inRange (isConversion ▸ failed)

/-- The labelers agree on the inputs whose prepared events are served. -/
abbrev LabelersAgree (served : X.Event → Prop) (labeler : Cc.Labeler X)
    (labeler' : Labeler X) : Prop :=
  ∀ input mode, served (Cc.Labeler.prepareEvent input mode) →
    Agree (· = ·) (labeler.label input mode) (labeler'.label input mode)

theorem exists_same (agree : LabelersAgree served labeler labeler')
    (neutral : labeler.root.NeutralRoutes) (isServed : run.IsServed served)
    (inRange : run.InRange) : ∃ ccRun : TwoPassRun labeler, run.Same ccRun := by
  obtain ⟨ccRun, inputEq, firstEq, ranksEq, secondEq⟩ :=
    TwoPassRun.exists_of_passes neutral
      (label_of_pass (agree _ _ isServed.first) run.firstPass inRange.first)
      run.localRanksLength
      (label_of_pass (agree _ _ isServed.second) run.secondPass inRange.second)
  exact ⟨ccRun, inputEq, firstEq, ranksEq, secondEq⟩

theorem exists_forall₂_same (agree : LabelersAgree served labeler labeler')
    (neutral : labeler.root.NeutralRoutes)
    {runs : List (MixedRun labeler labeler')}
    (areServed : ∀ run ∈ runs, run.IsServed served)
    (inRange : ∀ run ∈ runs, run.InRange) :
    ∃ ccRuns : List (TwoPassRun labeler),
      List.Forall₂ MixedRun.Same runs ccRuns := by
  induction runs with
  | nil => exact ⟨[], .nil⟩
  | cons run runs inductionHypothesis =>
    have ⟨headServed, tailServed⟩ := List.forall_mem_cons.mp areServed
    have ⟨head, tail⟩ := List.forall_mem_cons.mp inRange
    obtain ⟨ccRun, same⟩ := exists_same agree neutral headServed head
    obtain ⟨ccRuns, restSame⟩ := inductionHypothesis tailServed tail
    exact ⟨ccRun :: ccRuns, .cons same restSame⟩

theorem flatMap_rankAssignments {runs : List (MixedRun labeler labeler')}
    {ccRuns : List (TwoPassRun labeler)}
    (same : List.Forall₂ MixedRun.Same runs ccRuns) :
    ccRuns.flatMap TwoPassRun.rankAssignments =
      runs.flatMap MixedRun.rankAssignments := by
  induction same with
  | nil => rfl
  | cons head _ inductionHypothesis =>
    rw [List.flatMap_cons, List.flatMap_cons, inductionHypothesis,
      head.rankAssignments_eq]

end MixedRun

/-- The rank of each person decides its id within the ranked range. -/
theorem rankedId_of_mem_flatMap {labeler : Cc.Labeler X}
    (routes : labeler.root.NeutralRoutes) {runs : List (TwoPassRun labeler)}
    (once : ∀ run ∈ runs, labeler.ReachesPoolsOnce run.input) :
    ∀ person ∈ runs.flatMap TwoPassRun.rankedPeople,
      person.localRank < person.node.rankedSize →
        ∃ vid, person.person.virtualPersonId = some vid ∧
          person.node.rankedId X person.localRank = .ok vid := by
  intro person member
  obtain ⟨run, runMember, personMember⟩ := List.mem_flatMap.mp member
  exact run.rankedId_of_mem routes (once run runMember) personMember

namespace Labeler

theorem labelersAgree_of_build {served : X.Event → Prop}
    {root : CompiledNode X} {labeler : Cc.Labeler X} {labeler' : Labeler X}
    (built : Cc.Labeler.build root = .ok labeler)
    (built' : build root = .ok labeler')
    (separate : FingerprintsSeparate served root)
    (stays : StaysIn served labeler.root)
    (sizes : ∀ config ∈ root.populationNodes,
      exactPopulation config.pools ≤ 2 ^ 31 - 1) :
    MixedRun.LabelersAgree served labeler labeler' := by
  obtain ⟨node, nodeBuilt, labelerEq⟩ := bind_eq_ok_iff.mp built
  obtain ⟨node', nodeBuilt', labelerEq'⟩ := bind_eq_ok_iff.mp built'
  obtain rfl := Except.ok.inj labelerEq
  obtain rfl := Except.ok.inj labelerEq'
  exact fun input mode isServed => label_agree (ModelNode.buildsAgree separate
    (fun config member => lt_of_le_of_lt (sizes config member) (by decide))
    node node' nodeBuilt nodeBuilt') stays isServed

end Labeler

/-- The ranked people of runs in mixed languages are those of runs in C++ with
the same outputs, and have different ids if all ranks of a pool differ and no
input announces a pool offset twice. -/
theorem mixed_runs_distinct {served : X.Event → Prop} {root : CompiledNode X}
    {labeler : Cc.Labeler X} {labeler' : Labeler X}
    (built : Cc.Labeler.build root = .ok labeler)
    (built' : Labeler.build root = .ok labeler')
    (separate : FingerprintsSeparate served root)
    (stays : StaysIn served labeler.root)
    (sizes : ∀ config ∈ root.populationNodes,
      exactPopulation config.pools ≤ 2 ^ 31 - 1)
    (fields : Cc.NeutralNumberFields X)
    (neutral : labeler.root.EveryBranch Cc.BranchNodeImpl.NeutralSelection)
    (runs : List (MixedRun labeler labeler'))
    (areServed : ∀ run ∈ runs, run.IsServed served)
    (inRange : ∀ run ∈ runs, run.InRange)
    (ranks : (runs.flatMap MixedRun.rankAssignments).Nodup)
    (once : ∀ run ∈ runs, labeler.ReachesPoolsOnce run.input) :
    ∃ ccRuns : List (TwoPassRun labeler),
      List.Forall₂ MixedRun.Same runs ccRuns ∧
      (ccRuns.flatMap TwoPassRun.rankedPeople).Pairwise
        RankedPerson.Distinct := by
  have routes : labeler.root.NeutralRoutes :=
    neutral.mono fun _ selection => selection.neutral fields
  have agree :=
    Labeler.labelersAgree_of_build built built' separate stays sizes
  obtain ⟨ccRuns, same⟩ :=
    MixedRun.exists_forall₂_same agree routes areServed inRange
  have ccOnce : ∀ ccRun ∈ ccRuns, labeler.ReachesPoolsOnce ccRun.input := by
    intro ccRun member
    obtain ⟨run, runMember, sameRun⟩ := exists_mem_of_forall₂ same.flip member
    rw [sameRun.input]
    exact once run runMember
  have ids := rankedId_of_mem_flatMap routes ccOnce
  have ranksEq : (ccRuns.flatMap TwoPassRun.rankedPeople).map
      RankedPerson.rank = runs.flatMap MixedRun.rankAssignments := by
    rw [List.map_flatMap, ← MixedRun.flatMap_rankAssignments same]
    exact List.flatMap_congr fun run _ => run.map_rank_rankedPeople routes
  rw [← ranksEq, List.Nodup, List.pairwise_map] at ranks
  exact ⟨ccRuns, same, ranks.imp_of_mem fun firstMember secondMember different =>
    RankedPerson.distinct_of_rank_ne different (ids _ firstMember)
      (ids _ secondMember)⟩

/-- Two inputs, of which the one is labeled first in Kotlin and then in C++, and
the other one first in C++ and then in Kotlin. -/
theorem mixed_runs_distinct_twoRanks :
    ∃ (labeler : Cc.Labeler .flagged) (labeler' : Labeler .flagged)
      (runs : List (MixedRun labeler labeler')),
      Cc.Labeler.build (Labeler.rankedLeaf none) = .ok labeler ∧
      Labeler.build (Labeler.rankedLeaf none) = .ok labeler' ∧
      runs.map (·.firstIn) = [.kotlin, .cc] ∧
      runs.map (·.secondIn) = [.cc, .kotlin] ∧
      ∃ ccRuns : List (TwoPassRun labeler),
        List.Forall₂ MixedRun.Same runs ccRuns ∧
        (ccRuns.flatMap TwoPassRun.rankedPeople).map RankedPerson.rank =
          [⟨7, 0⟩, ⟨7, 1⟩] ∧
        (ccRuns.flatMap TwoPassRun.rankedPeople).Pairwise
          RankedPerson.Distinct := by
  let labeler : Cc.Labeler .flagged := ⟨.leafNode (.rankedPopulationNode
    ⟨"ranked", 2, .disjoint, 7, 4, by decide, by decide, by decide⟩)⟩
  let withRank (localRank : UInt64) : Externals.flagged.Input :=
    Cc.withRanks Externals.flagged.emptyInput [⟨7, localRank⟩]
  let announced : LabelerOutput .flagged := ⟨[], [⟨7, 4, 2⟩], none⟩
  let labeled (vid : UInt64) : LabelerOutput .flagged :=
    ⟨[⟨some vid, none⟩], [], none⟩
  have built : Cc.Labeler.build (Labeler.rankedLeaf none) = .ok labeler := rfl
  have first : labeler.label Externals.flagged.emptyInput .poolIdentity =
      .ok announced := by decide +kernel
  have second : labeler.label (withRank 0) .full = .ok (labeled 7) ∧
      labeler.label (withRank 1) .full = .ok (labeled 8) := by decide +kernel
  obtain ⟨labeler', built', first', second'⟩ : ∃ labeler',
      Labeler.build (Labeler.rankedLeaf none) = .ok labeler' ∧
      labeler'.label Externals.flagged.emptyInput .poolIdentity =
        .ok announced ∧
      labeler'.label (withRank 1) .full = .ok (labeled 8) :=
    ⟨_, rfl, by decide +kernel, by decide +kernel⟩
  let run : MixedRun labeler labeler' := ⟨.kotlin, .cc,
    Externals.flagged.emptyInput, announced, first', [0], rfl, labeled 7,
    second.1⟩
  let run' : MixedRun labeler labeler' := ⟨.cc, .kotlin,
    Externals.flagged.emptyInput, announced, first, [1], rfl, labeled 8,
    second'⟩
  have inRange : run.InRange ∧ run'.InRange := by
    refine ⟨⟨?_, ?_⟩, ⟨?_, ?_⟩⟩ <;> intro failed
    · cases first.symm.trans failed
    · cases second.1.symm.trans failed
    · cases first.symm.trans failed
    · cases second.2.symm.trans failed
  have once : labeler.ReachesPoolsOnce Externals.flagged.emptyInput := by
    intro visits routed
    rw [← Except.ok.inj routed]
    exact List.nodup_singleton _
  have routes : labeler.root.NeutralRoutes := .leafNode _
  obtain ⟨ccRuns, same, distinct⟩ := mixed_runs_distinct built built'
    (fun matrix _ => Labeler.columnsSeparate_flagged matrix.columns _)
    (Labeler.staysIn_all (fun _ => trivial) _) nofun
    Cc.neutralNumberFields_flagged (.leafNode _) [run, run']
    (fun _ _ => ⟨trivial, trivial⟩) (by simpa using inRange)
    (show [(⟨7, 0⟩ : RankAssignment), ⟨7, 1⟩].Nodup by decide)
    (by simpa using ⟨once, once⟩)
  refine ⟨labeler, labeler', [run, run'], built, built', rfl, rfl, ccRuns, same,
    ?_, distinct⟩
  have ranksEq := MixedRun.flatMap_rankAssignments same
  rw [List.map_flatMap]
  exact (List.flatMap_congr fun run _ => run.map_rank_rankedPeople routes).trans
    ranksEq

end VirtualPeople.Kotlin
