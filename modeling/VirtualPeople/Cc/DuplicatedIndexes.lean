import VirtualPeople.Cc.NodeLists

/-!
# Duplicated indexes

`Labeler::Build` on a list rejects an index that is still in the table of nodes.
An index leaves the table when a node refers to it, so that a later node can
have the same index: this is the one way in which an accepted list repeats an
index.
-/

namespace VirtualPeople.Cc

variable {X : Externals}

/-- Two nodes have one index, and a node after the first, up to the second,
refers to it. -/
def ReusesIndex (nodes : List (CompiledNode X)) : Prop :=
  ∃ before first between second after index,
    nodes = before ++ first :: (between ++ second :: after) ∧
      first.index = some index ∧ second.index = some index ∧
      index ∈ listIndexes (between ++ [second])

/-- A list that is not pairwise related has two places that are not. -/
theorem exists_of_not_pairwise {α : Type} {R : α → α → Prop} {elements : List α}
    (notPairwise : ¬elements.Pairwise R) :
    ∃ before first between second after,
      elements = before ++ first :: (between ++ second :: after) ∧
        ¬R first second := by
  induction elements with
  | nil => exact absurd .nil notPairwise
  | cons first elements inductionHypothesis =>
    rw [List.pairwise_cons, not_and_or] at notPairwise
    rcases notPairwise with unrelated | notPairwise
    · push Not at unrelated
      obtain ⟨second, member, unrelated⟩ := unrelated
      obtain ⟨between, after, rfl⟩ := List.append_of_mem member
      exact ⟨[], first, between, second, after, rfl, unrelated⟩
    · obtain ⟨before, earlier, between, second, after, rfl, unrelated⟩ :=
        inductionHypothesis notPairwise
      exact ⟨first :: before, earlier, between, second, after, rfl, unrelated⟩

/-- No index is used twice when no two nodes share one. -/
theorem nodup_indexes_iff {nodes : List (CompiledNode X)} :
    (nodes.filterMap CompiledNode.index).Nodup ↔
      nodes.Pairwise fun node node' => ∀ index,
        node.index = some index → node'.index ≠ some index := by
  rw [List.Nodup, List.pairwise_filterMap]
  constructor
  · intro pairwise
    refine pairwise.imp fun different index indexed indexed' => ?_
    exact different index indexed index indexed' rfl
  · intro pairwise
    refine pairwise.imp fun different index indexed index' indexed' same => ?_
    subst same
    exact different index indexed indexed'

/-- A node stays in the table as long as nothing refers to it. -/
theorem mem_of_build {node : CompiledNode X} {refs rest : NodeRefs X}
    {built : ModelNode X} (run : ModelNode.build node refs = .ok built rest)
    {key : UInt32} (member : key ∈ refs) (unused : key ∉ node.nodeIndexes) :
    key ∈ rest := by
  obtain ⟨-, -, rfl⟩ := (buildsByLookup node refs rest built).mp run
  rw [← AList.lookup_isSome, lookup_eraseAll, if_neg unused,
    AList.lookup_isSome]
  exact member

/-- A node stays in the table while nothing refers to it. -/
theorem mem_of_addNode {root found : Option (ModelNode X)}
    {node : CompiledNode X} {refs refs' : NodeRefs X}
    (run : Labeler.addNode root node refs = .ok found refs') {key : UInt32}
    (member : key ∈ refs) (unused : key ∉ node.nodeIndexes) : key ∈ refs' := by
  cases found with
  | none =>
    obtain ⟨-, index, built, rest, -, buildRun, -, rfl⟩ :=
      addNode_eq_ok_none_iff.mp run
    exact (AList.mem_insert rest).mpr (.inr (mem_of_build buildRun member unused))
  | some built =>
    obtain ⟨-, -, buildRun⟩ := addNode_eq_ok_some_iff.mp run
    exact mem_of_build buildRun member unused

/-- A node stays in the table while nothing in the list refers to it. -/
theorem mem_of_foldlM_addNode {nodes : List (CompiledNode X)}
    {root found : Option (ModelNode X)} {refs refs' : NodeRefs X}
    (run : nodes.foldlM Labeler.addNode root refs = .ok found refs')
    {key : UInt32} (member : key ∈ refs) (unused : key ∉ listIndexes nodes) :
    key ∈ refs' := by
  induction nodes generalizing root refs with
  | nil =>
    injection run with _ sameRefs
    rwa [← sameRefs]
  | cons node nodes inductionHypothesis =>
    rw [List.foldlM_cons, Step.run_bind_eq_ok_iff] at run
    obtain ⟨root', middle, head, tail⟩ := run
    rw [listIndexes, List.flatMap_cons, List.mem_append, not_or] at unused
    exact inductionHypothesis tail (mem_of_addNode head member unused.1) unused.2

/-- A node with an index is added only after no root was found, and its index
is in the table then. -/
theorem addNode_of_index {root found : Option (ModelNode X)}
    {node : CompiledNode X} {index : UInt32} (indexed : node.index = some index)
    {refs refs' : NodeRefs X}
    (run : Labeler.addNode root node refs = .ok found refs') :
    index ∈ refs' ∧ (index ∈ refs → index ∈ node.nodeIndexes) := by
  cases found with
  | some built =>
    obtain ⟨-, noIndex, -⟩ := addNode_eq_ok_some_iff.mp run
    rw [noIndex] at indexed
    contradiction
  | none =>
    obtain ⟨-, other, built, rest, same, buildRun, absent, rfl⟩ :=
      addNode_eq_ok_none_iff.mp run
    rw [indexed, Option.some_inj] at same
    subst same
    refine ⟨(AList.mem_insert rest).mpr (.inl rfl), fun member => ?_⟩
    by_contra unused
    exact absent (mem_of_build buildRun member unused)

/-- The indexes of an accepted list are different unless one of them is used
again after a node has referred to it. -/
theorem Labeler.accepted_indexes_nodup_iff {nodes : List (CompiledNode X)}
    {labeler : Labeler X} (built : buildFromList nodes = .ok labeler) :
    (nodes.filterMap CompiledNode.index).Nodup ↔ ¬ReusesIndex nodes := by
  constructor
  · rintro nodup ⟨before, first, between, second, after, index, rfl, indexed,
      indexed', -⟩
    rw [nodup_indexes_iff, List.pairwise_append, List.pairwise_cons] at nodup
    exact nodup.2.1.1 second (by simp) index indexed indexed'
  · intro notReused
    rw [nodup_indexes_iff]
    by_contra repeated
    obtain ⟨before, first, between, second, after, rfl, same⟩ :=
      exists_of_not_pairwise repeated
    push Not at same
    obtain ⟨index, indexed, indexed'⟩ := same
    obtain ⟨found, refs, run⟩ : ∃ found refs,
        (before ++ first :: (between ++ second :: after)).foldlM addNode none
          ∅ = .ok found refs := by
      obtain ⟨rest, built⟩ := buildFromList_eq_ok_iff.mp built
      rcases (buildNodes_eq_ok_iff.mp built).2 with run | ⟨refs, run, -⟩
      · exact ⟨_, _, run⟩
      · exact ⟨_, _, run⟩
    simp only [List.foldlM_append, List.foldlM_cons, Step.run_bind_eq_ok_iff]
      at run
    obtain ⟨_, refs₁, -, _, refs₂, firstRun, _, refs₃, betweenRun, _, refs₄,
      secondRun, -⟩ := run
    apply notReused
    refine ⟨before, first, between, second, after, index, rfl, indexed, indexed',
      ?_⟩
    rw [listIndexes_concat, List.mem_append]
    by_contra! unused
    have kept := mem_of_foldlM_addNode betweenRun
      (addNode_of_index indexed firstRun).1 unused.1
    exact unused.2 ((addNode_of_index indexed' secondRun).2 kept)

/-- A stop node and the branch above it, both with the index 2. -/
theorem Labeler.accepted_indexes_repeat :
    let nodes : List (CompiledNode .constant) := [.mk (some 2) .stopNode,
      .mk (some 2) (.branchNode
        ⟨[⟨.nodeIndex 2, .chance 1.0⟩], "seed", .notSet⟩)]
    (∃ labeler, buildFromList nodes = .ok labeler) ∧
      ¬(nodes.filterMap CompiledNode.index).Nodup :=
  ⟨⟨_, rfl⟩, by decide⟩

/-- With two indexes the list is accepted and none is used again. -/
theorem Labeler.accepted_indexes_nodup_branch :
    ¬ReusesIndex (X := .constant) [.mk (some 2) .stopNode,
      .mk (some 3) (.branchNode
        ⟨[⟨.nodeIndex 2, .chance 1.0⟩], "seed", .notSet⟩)] :=
  (accepted_indexes_nodup_iff rfl).mp (by decide)

end VirtualPeople.Cc
