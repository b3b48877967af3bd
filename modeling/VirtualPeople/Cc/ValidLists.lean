import VirtualPeople.Cc.NodeLists

/-!
# Valid node lists

A list with different indexes is accepted exactly when it is a tree written
children first, with one parent for each node but the last, and each node can
be built for itself.  What is built is the tree of the last node with all its
references replaced, so that the order of the nodes does not matter.
-/

namespace VirtualPeople.Cc

variable {X : Externals}

/-! ## Valid lists -/

/-- Stop nodes in the place of all references. -/
def stopNodes : ConfigEnv X := fun _ => some (.mk none .stopNode)

/-- The node can be built with stop nodes in the place of its references. -/
def Accepted (node : CompiledNode X) : Prop :=
  ∃ built, (ModelNode.build (replaceReferences stopNodes node)).alone = .ok built

/-- A tree written children first, whose nodes can all be built. -/
structure IsValidList (nodes : List (CompiledNode X)) : Prop where
  nonempty : nodes ≠ []
  indexed : ∀ node ∈ nodes.dropLast, ∃ index, node.index = some index
  childrenFirst : ChildrenFirst nodes
  referredOnce : ∀ node ∈ nodes.dropLast, ∀ index, node.index = some index →
    (listIndexes nodes).count index = 1
  accepted : ∀ node ∈ nodes, Accepted node

/-- A node is accepted when it resolves with the nodes it refers to. -/
theorem accepted_iff {node : CompiledNode X} (closed : node.ClosedTrees)
    {env : NodeEnv X}
    (present : ∀ index ∈ node.nodeIndexes, ∃ found, env index = some found) :
    Accepted node ↔ ∃ built, ModelNode.resolve node env = .ok built := by
  have stopEq : ModelNode.resolve (replaceReferences stopNodes node)
      (fun _ => none) = ModelNode.resolve node
        (fun _ => some (.leafNode .stopNode)) :=
    resolve_replaceReferences closed fun _ _ => .some rfl
  unfold Accepted
  simp only [alone_build_eq_ok_iff, stopEq]
  have both := @resolve_lockstep X (fun _ => some (.leafNode .stopNode)) env node
    fun index referred => by
      obtain ⟨found, foundEq⟩ := present index referred
      rw [foundEq]
      rfl
  constructor
  · rintro ⟨built, resolved⟩
    obtain ⟨built', resolved', -⟩ := both.ok_of_ok resolved
    exact ⟨built', resolved'⟩
  · rintro ⟨built, resolved⟩
    obtain ⟨built', resolved', -⟩ := both.symm.ok_of_ok resolved
    exact ⟨built', resolved'⟩

/-- The nodes that can be referred to are those with an index. -/
theorem AreIndexed.known {nodes : List (CompiledNode X)}
    (areIndexed : AreIndexed nodes)
    (distinct : (nodes.filterMap CompiledNode.index).Nodup) (index : UInt32) :
    (∃ found, resolveNodes nodes index = some found) ↔
      ∃ node ∈ nodes, node.index = some index := by
  obtain ⟨adds, added⟩ := foldlM_addNode_spec distinct
  obtain ⟨refs, run⟩ := added areIndexed
  exact (adds refs run).2.known index

/-- The node that follows is accepted exactly when the nodes before resolve
it. -/
theorem AreIndexed.accepted_iff {nodes : List (CompiledNode X)}
    (areIndexed : AreIndexed nodes)
    (distinct : (nodes.filterMap CompiledNode.index).Nodup)
    {node : CompiledNode X} (closed : node.ClosedTrees)
    (earlier : ∀ index ∈ node.nodeIndexes,
      ∃ child ∈ nodes, child.index = some index) :
    Accepted node ↔
      ∃ built, ModelNode.resolve node (resolveNodes nodes) = .ok built :=
  Cc.accepted_iff closed fun index referred =>
    (areIndexed.known distinct index).mpr (earlier index referred)

/-- A list is indexed when it is closed under references and its nodes are
accepted. -/
theorem areIndexed_iff {nodes : List (CompiledNode X)}
    (distinct : (nodes.filterMap CompiledNode.index).Nodup)
    (closed : ∀ node ∈ nodes, node.ClosedTrees) :
    AreIndexed nodes ↔ (∀ node ∈ nodes, ∃ index, node.index = some index) ∧
      ChildrenFirst nodes ∧ (listIndexes nodes).Nodup ∧
      ∀ node ∈ nodes, Accepted node := by
  induction nodes using List.reverseRecOn with
  | nil =>
    exact iff_of_true areIndexed_nil
      ⟨nofun, areIndexed_nil.childrenFirst, .nil, nofun⟩
  | append_singleton init last inductionHypothesis =>
    obtain ⟨distinctInit, -⟩ := distinct_concat distinct
    have closedInit : ∀ node ∈ init, node.ClosedTrees := fun node member =>
      closed node (List.mem_append_left _ member)
    have initIff := inductionHypothesis distinctInit closedInit
    have closedLast := closed last (by simp)
    rw [areIndexed_concat, childrenFirst_concat, listIndexes_concat]
    simp only [List.forall_mem_append, List.forall_mem_singleton]
    constructor
    · rintro ⟨areIndexed, indexed, follows, resolved⟩
      obtain ⟨allIndexed, childrenFirst, -, accepted⟩ := initIff.mp areIndexed
      exact ⟨⟨allIndexed, indexed⟩, ⟨childrenFirst, follows.earlier⟩,
        follows.once, accepted, (areIndexed.accepted_iff distinctInit closedLast
          follows.earlier).mpr resolved⟩
    · rintro ⟨⟨allIndexed, indexed⟩, ⟨childrenFirst, earlier⟩, once, accepted,
        lastAccepted⟩
      have areIndexed := initIff.mpr ⟨allIndexed, childrenFirst,
        (List.nodup_append.mp once).1, accepted⟩
      exact ⟨areIndexed, indexed, ⟨earlier, once⟩, (areIndexed.accepted_iff
        distinctInit closedLast earlier).mp lastAccepted⟩

/-- Among different indexes that are all known, no one is used twice and none
is left over exactly when each of them is used once. -/
theorem referredOnce_iff {init : List (CompiledNode X)} {last : CompiledNode X}
    (childrenFirst : ChildrenFirst (init ++ [last])) :
    ((listIndexes (init ++ [last])).Nodup ∧ AllReferred init last) ↔
      ∀ node ∈ init, ∀ index, node.index = some index →
        (listIndexes (init ++ [last])).count index = 1 := by
  unfold AllReferred
  rw [← listIndexes_concat]
  constructor
  · rintro ⟨nodup, allReferred⟩ node member index indexed
    exact List.count_eq_one_of_mem nodup (allReferred node member index indexed)
  · intro once
    constructor
    · rw [List.nodup_iff_count_le_one]
      intro index
      by_cases referred : index ∈ listIndexes (init ++ [last])
      · have ⟨child, inInit, indexed⟩ :
            ∃ child ∈ init, child.index = some index := by
          rw [childrenFirst_concat] at childrenFirst
          rw [listIndexes_concat, List.mem_append] at referred
          rcases referred with inList | inLast
          · exact childrenFirst.1.exists_of_mem inList
          · exact childrenFirst.2 index inLast
        exact (once child inInit index indexed).le
      · rw [List.count_eq_zero_of_not_mem referred]
        exact Nat.zero_le 1
    · intro node member index indexed
      exact List.count_pos_iff.mp (by
        rw [once node member index indexed]
        exact Nat.one_pos)

/-- A list is valid when all nodes before the last are referred to. -/
theorem isValidList_concat_iff {init : List (CompiledNode X)}
    {last : CompiledNode X}
    (distinct : ((init ++ [last]).filterMap CompiledNode.index).Nodup)
    (closed : ∀ node ∈ init ++ [last], node.ClosedTrees) :
    IsValidList (init ++ [last]) ↔
      AreIndexed init ∧ Follows init last ∧ AllReferred init last ∧
        ∃ root, ModelNode.resolve last (resolveNodes init) = .ok root := by
  obtain ⟨distinctInit, -⟩ := distinct_concat distinct
  have closedInit : ∀ node ∈ init, node.ClosedTrees := fun node member =>
    closed node (List.mem_append_left _ member)
  have closedLast := closed last (by simp)
  have initIff := areIndexed_iff distinctInit closedInit
  constructor
  · rintro ⟨-, indexed, childrenFirst, referredOnce, accepted⟩
    rw [List.dropLast_concat] at indexed referredOnce
    obtain ⟨nodup, allReferred⟩ := (referredOnce_iff childrenFirst).mpr
      referredOnce
    rw [listIndexes_concat] at nodup
    have ⟨initFirst, earlier⟩ := childrenFirst_concat.mp childrenFirst
    have areIndexed := initIff.mpr ⟨indexed, initFirst,
      (List.nodup_append.mp nodup).1, fun node member =>
        accepted node (List.mem_append_left _ member)⟩
    exact ⟨areIndexed, ⟨earlier, nodup⟩, allReferred,
      (areIndexed.accepted_iff distinctInit closedLast earlier).mp
        (accepted last (by simp))⟩
  · rintro ⟨areIndexed, follows, allReferred, resolved⟩
    obtain ⟨indexed, initFirst, -, accepted⟩ := initIff.mp areIndexed
    have childrenFirst := childrenFirst_concat.mpr ⟨initFirst, follows.earlier⟩
    have nodup := follows.once
    rw [← listIndexes_concat] at nodup
    have referredOnce := (referredOnce_iff childrenFirst).mp
      ⟨nodup, allReferred⟩
    refine ⟨by simp, ?_, childrenFirst, ?_, ?_⟩
    · rwa [List.dropLast_concat]
    · rwa [List.dropLast_concat]
    · simp only [List.forall_mem_append, List.forall_mem_singleton]
      exact ⟨accepted, (areIndexed.accepted_iff distinctInit closedLast
        follows.earlier).mpr resolved⟩

/-! ## Replaced references -/

/-- The last node of a list with all references replaced. -/
def replacedRoot (nodes : List (CompiledNode X)) : Option (CompiledNode X) :=
  nodes.getLast?.map (replaceReferences (replaceNodes nodes.dropLast))

/-- The root that replaces a list is its last node, replaced. -/
theorem replacedRoot_concat (init : List (CompiledNode X))
    (last : CompiledNode X) :
    replacedRoot (init ++ [last]) =
      some (replaceReferences (replaceNodes init) last) := by
  rw [replacedRoot, List.getLast?_concat, List.dropLast_concat]
  rfl

/-- A longer list replaces the references of its last node. -/
theorem replaceNodes_concat {init : List (CompiledNode X)}
    {last : CompiledNode X} {index : UInt32}
    (indexed : last.index = some index) :
    replaceNodes (init ++ [last]) = Function.update (replaceNodes init) index
      (some (replaceReferences (replaceNodes init) last)) := by
  unfold replaceNodes
  rw [List.foldl_append, List.foldl_cons, List.foldl_nil, indexed]

/-- The replaced nodes are what the nodes are built of. -/
theorem AreIndexed.represents {nodes : List (CompiledNode X)}
    (areIndexed : AreIndexed nodes)
    (closed : ∀ node ∈ nodes, node.ClosedTrees) (index : UInt32) :
    Represents (replaceNodes nodes) (resolveNodes nodes) index := by
  induction nodes using List.reverseRecOn generalizing index with
  | nil => exact .none
  | append_singleton init last inductionHypothesis =>
    obtain ⟨initIndexed, ⟨lastIndex, indexed⟩, -, built, resolved⟩ :=
      areIndexed_concat.mp areIndexed
    have represents := inductionHypothesis initIndexed fun node member =>
      closed node (List.mem_append_left _ member)
    unfold Represents
    rw [replaceNodes_concat indexed, resolveNodes_concat indexed resolved]
    by_cases same : index = lastIndex
    · subst same
      rw [Function.update_self, Function.update_self]
      refine .some ?_
      rw [resolve_replaceReferences (closed last (by simp)) fun index _ =>
        represents index]
      exact resolved
    · rw [Function.update_of_ne same, Function.update_of_ne same]
      exact represents index

/-- A labeler has the root that the configuration resolves to. -/
theorem Labeler.build_eq_ok_iff {root : CompiledNode X} {node : ModelNode X} :
    Labeler.build root = .ok ⟨node⟩ ↔
      ModelNode.resolve root (fun _ => none) = .ok node := by
  unfold Labeler.build
  simp only [bind_eq_ok_iff, alone_build_eq_ok_iff]
  constructor
  · rintro ⟨built, resolved, same⟩
    injection same with sameLabeler
    injection sameLabeler with sameNode
    rwa [← sameNode]
  · exact fun resolved => ⟨node, resolved, rfl⟩

/-! ## The order of the nodes -/

/-- Under the index of each node is what the node is built of. -/
def Solves (nodes : List (CompiledNode X)) (env : NodeEnv X) : Prop :=
  ∀ node ∈ nodes, ∀ index, node.index = some index →
    ∃ found, env index = some found ∧ ModelNode.resolve node env = .ok found

/-- The nodes of an indexed list solve it. -/
theorem AreIndexed.solves {nodes : List (CompiledNode X)}
    (areIndexed : AreIndexed nodes)
    (distinct : (nodes.filterMap CompiledNode.index).Nodup) :
    Solves nodes (resolveNodes nodes) := by
  induction nodes using List.reverseRecOn with
  | nil => exact nofun
  | append_singleton init last inductionHypothesis =>
    obtain ⟨distinctInit, fresh⟩ := distinct_concat distinct
    obtain ⟨initIndexed, ⟨lastIndex, indexed⟩, follows, built, resolved⟩ :=
      areIndexed_concat.mp areIndexed
    have solves := inductionHypothesis initIndexed distinctInit
    -- Nothing refers to the new entry, so that the others stay what they are.
    have kept {node : CompiledNode X} (referred : ∀ index ∈ node.nodeIndexes,
        ∃ child ∈ init, child.index = some index) :
        ModelNode.resolve node (resolveNodes (init ++ [last])) =
          ModelNode.resolve node (resolveNodes init) := by
      rw [resolveNodes_concat indexed resolved]
      refine resolve_congr node fun index member => Function.update_of_ne ?_ _ _
      rintro rfl
      obtain ⟨child, inInit, same⟩ := referred index member
      exact fresh index indexed child inInit same
    intro node member index nodeIndexed
    rcases List.mem_append.mp member with inInit | isLast
    · obtain ⟨found, foundEq, nodeResolved⟩ :=
        solves node inInit index nodeIndexed
      refine ⟨found, ?_, ?_⟩
      · rw [resolveNodes_concat indexed resolved, Function.update_of_ne, foundEq]
        rintro rfl
        exact fresh index indexed node inInit nodeIndexed
      · rw [kept fun index referred => initIndexed.childrenFirst.exists_of_mem
          (List.mem_flatMap.mpr ⟨node, inInit, referred⟩), nodeResolved]
    · rw [List.mem_singleton] at isLast
      subst isLast
      rw [indexed, Option.some_inj] at nodeIndexed
      subst nodeIndexed
      refine ⟨built, ?_, ?_⟩
      · rw [resolveNodes_concat indexed resolved, Function.update_self]
      · rw [kept follows.earlier, resolved]

/-- There is one way to solve nodes that are written children first. -/
theorem Solves.unique {nodes : List (CompiledNode X)}
    (childrenFirst : ChildrenFirst nodes) {env env' : NodeEnv X}
    (solves : Solves nodes env) (solves' : Solves nodes env') :
    ∀ node ∈ nodes, ∀ index, node.index = some index →
      env index = env' index := by
  induction nodes using List.reverseRecOn with
  | nil => exact nofun
  | append_singleton init last inductionHypothesis =>
    obtain ⟨initFirst, earlier⟩ := childrenFirst_concat.mp childrenFirst
    have initSame := inductionHypothesis initFirst
      (fun node member => solves node (List.mem_append_left _ member))
      (fun node member => solves' node (List.mem_append_left _ member))
    intro node member index indexed
    rcases List.mem_append.mp member with inInit | isLast
    · exact initSame node inInit index indexed
    · rw [List.mem_singleton] at isLast
      subst isLast
      obtain ⟨found, foundEq, resolved⟩ := solves node member index indexed
      obtain ⟨found', foundEq', resolved'⟩ := solves' node member index indexed
      have sameNode : ModelNode.resolve node env = ModelNode.resolve node env' := by
        refine resolve_congr node fun index referred => ?_
        obtain ⟨child, inInit, childIndexed⟩ := earlier index referred
        exact initSame child inInit index childIndexed
      rw [resolved, resolved'] at sameNode
      rw [foundEq, foundEq', Except.ok.inj sameNode]

/-- Lists in another order refer to the same indexes. -/
theorem listIndexes_perm {nodes nodes' : List (CompiledNode X)}
    (perm : nodes'.Perm nodes) : (listIndexes nodes').Perm (listIndexes nodes) :=
  perm.flatMap_right _

/-- In any children-first order of the nodes of a valid list, its last node is
the last. -/
theorem IsValidList.last_eq {init init' : List (CompiledNode X)}
    {last last' : CompiledNode X} (valid : IsValidList (init ++ [last]))
    (perm : (init' ++ [last']).Perm (init ++ [last]))
    (distinct : ((init' ++ [last']).filterMap CompiledNode.index).Nodup)
    (childrenFirst : ChildrenFirst (init' ++ [last'])) : last' = last := by
  have member : last' ∈ init ++ [last] := perm.subset (by simp)
  rcases List.mem_append.mp member with inInit | isLast
  · -- Another node has a parent, which comes after it.
    have inDropLast : last' ∈ (init ++ [last]).dropLast := by
      rwa [List.dropLast_concat]
    obtain ⟨index, indexed⟩ := valid.indexed last' inDropLast
    have once := valid.referredOnce last' inDropLast index indexed
    have referred : index ∈ listIndexes (init' ++ [last']) := by
      refine (listIndexes_perm perm).symm.subset (List.count_pos_iff.mp ?_)
      exact once.symm ▸ Nat.one_pos
    obtain ⟨-, fresh⟩ := distinct_concat distinct
    have ⟨child, inInit', same⟩ : ∃ child ∈ init', child.index = some index := by
      obtain ⟨initFirst, earlier⟩ := childrenFirst_concat.mp childrenFirst
      rw [listIndexes_concat, List.mem_append] at referred
      rcases referred with inList | inLast
      · exact initFirst.exists_of_mem inList
      · exact earlier index inLast
    exact absurd same (fresh index indexed child inInit')
  · exact List.mem_singleton.mp isLast

/-- Any children-first order of a valid list is valid. -/
theorem IsValidList.of_perm {nodes nodes' : List (CompiledNode X)}
    (valid : IsValidList nodes)
    (distinct : (nodes.filterMap CompiledNode.index).Nodup)
    (perm : nodes'.Perm nodes) (childrenFirst : ChildrenFirst nodes') :
    ∃ init init' last, nodes = init ++ [last] ∧ nodes' = init' ++ [last] ∧
      init'.Perm init ∧ IsValidList nodes' := by
  rcases List.eq_nil_or_concat nodes with rfl | ⟨init, last, rfl⟩
  · exact absurd rfl valid.nonempty
  rcases List.eq_nil_or_concat nodes' with rfl | ⟨init', last', rfl⟩
  · exact absurd perm.symm.eq_nil (by simp)
  simp only [List.concat_eq_append] at valid distinct perm childrenFirst ⊢
  have distinct' : ((init' ++ [last']).filterMap CompiledNode.index).Nodup :=
    (perm.filterMap _).nodup_iff.mpr distinct
  obtain rfl := valid.last_eq perm distinct' childrenFirst
  have permInit : init'.Perm init := (List.perm_append_right_iff [last']).mp perm
  refine ⟨init, init', last', rfl, rfl, permInit, ?_⟩
  obtain ⟨-, indexed, -, referredOnce, accepted⟩ := valid
  rw [List.dropLast_concat] at indexed referredOnce
  refine ⟨by simp, ?_, childrenFirst, ?_, fun node member =>
    accepted node (perm.subset member)⟩
  · rw [List.dropLast_concat]
    exact fun node member => indexed node (permInit.subset member)
  · rw [List.dropLast_concat]
    intro node member index nodeIndexed
    rw [(listIndexes_perm perm).count_eq]
    exact referredOnce node (permInit.subset member) index nodeIndexed

/-- Two children-first orders of the nodes before the root build the same
root. -/
theorem resolve_eq_of_perm {init init' : List (CompiledNode X)}
    (areIndexed : AreIndexed init) (areIndexed' : AreIndexed init')
    (distinct : (init.filterMap CompiledNode.index).Nodup)
    (perm : init'.Perm init) {last : CompiledNode X}
    (follows : Follows init last) :
    ModelNode.resolve last (resolveNodes init) =
      ModelNode.resolve last (resolveNodes init') := by
  have distinct' : (init'.filterMap CompiledNode.index).Nodup :=
    (perm.filterMap _).nodup_iff.mpr distinct
  have solves' : Solves init (resolveNodes init') := fun node member =>
    areIndexed'.solves distinct' node (perm.symm.subset member)
  have same := (areIndexed.solves distinct).unique areIndexed.childrenFirst
    solves'
  refine resolve_congr last fun index referred => ?_
  obtain ⟨child, inInit, indexed⟩ := follows.earlier index referred
  exact same child inInit index indexed

/-! ## Building from a list -/

/-- A list with different indexes, whose update trees hold no references, is
accepted exactly when it is valid.  The labeler is then the one of the last
node with its references replaced, and every children-first order of the nodes
gives the same. -/
theorem Labeler.accepts_valid_lists {nodes : List (CompiledNode X)}
    (distinct : (nodes.filterMap CompiledNode.index).Nodup)
    (closed : ∀ node ∈ nodes, node.ClosedTrees) :
    ((∃ labeler, buildFromList nodes = .ok labeler) ↔ IsValidList nodes) ∧
    (∀ labeler, buildFromList nodes = .ok labeler →
      ∃ root, replacedRoot nodes = some root ∧ build root = .ok labeler) ∧
    (∀ labeler, buildFromList nodes = .ok labeler →
      ∀ nodes' : List (CompiledNode X), nodes'.Perm nodes →
        ChildrenFirst nodes' → buildFromList nodes' = .ok labeler) := by
  rcases List.eq_nil_or_concat nodes with rfl | ⟨init, last, rfl⟩
  · have empty : (buildFromList [] : Result (Labeler X)) =
      .error (internal "Cannot find root node.") := rfl
    rw [empty]
    refine ⟨iff_of_false (by simp) fun valid => valid.nonempty rfl, ?_, ?_⟩ <;>
      exact fun labeler failed => by contradiction
  rw [List.concat_eq_append] at distinct closed ⊢
  have builds (root : ModelNode X) :=
    @buildFromList_concat_iff X init last distinct root
  have validIff : (∃ labeler, buildFromList (init ++ [last]) = .ok labeler) ↔
      IsValidList (init ++ [last]) := by
    rw [isValidList_concat_iff distinct closed]
    constructor
    · rintro ⟨⟨root⟩, built⟩
      obtain ⟨areIndexed, follows, allReferred, resolved⟩ := (builds root).mp built
      exact ⟨areIndexed, follows, allReferred, root, resolved⟩
    · rintro ⟨areIndexed, follows, allReferred, root, resolved⟩
      exact ⟨⟨root⟩, (builds root).mpr ⟨areIndexed, follows, allReferred, resolved⟩⟩
  refine ⟨validIff, ?_, ?_⟩
  · rintro ⟨root⟩ built
    obtain ⟨areIndexed, -, -, resolved⟩ := (builds root).mp built
    refine ⟨_, replacedRoot_concat init last, ?_⟩
    have represents := areIndexed.represents fun node member =>
      closed node (List.mem_append_left _ member)
    rw [build_eq_ok_iff, resolve_replaceReferences (closed last (by simp))
      fun index _ => represents index]
    exact resolved
  · rintro ⟨root⟩ built nodes' perm childrenFirst
    have valid := validIff.mp ⟨_, built⟩
    obtain ⟨init₂, init', last', same, rfl, permInit, valid'⟩ :=
      valid.of_perm distinct perm childrenFirst
    obtain ⟨rfl, sameLast⟩ := List.append_inj' same rfl
    rw [← List.singleton_inj.mp sameLast] at perm valid' ⊢
    have distinct' := (perm.filterMap CompiledNode.index).nodup_iff.mpr distinct
    obtain ⟨areIndexed, follows, -, resolved⟩ := (builds root).mp built
    obtain ⟨areIndexed', follows', allReferred', -⟩ :=
      (isValidList_concat_iff distinct' fun node member =>
        closed node (perm.subset member)).mp valid'
    refine (buildFromList_concat_iff distinct').mpr
      ⟨areIndexed', follows', allReferred', ?_⟩
    rw [← resolve_eq_of_perm areIndexed areIndexed' (distinct_concat distinct).1
      permInit follows]
    exact resolved

/-- A branch after the stop node that it refers to. -/
theorem Labeler.accepts_valid_lists_branch :
    IsValidList (X := .constant) [.mk (some 2) .stopNode, .mk none (.branchNode
      ⟨[⟨.nodeIndex 2, .chance 1.0⟩], "seed", .notSet⟩)] := by
  have closed : ∀ node ∈ ([.mk (some 2) .stopNode, .mk none (.branchNode
      ⟨[⟨.nodeIndex 2, .chance 1.0⟩], "seed", .notSet⟩)] :
        List (CompiledNode .constant)), node.ClosedTrees := by
    intro node member
    rcases List.mem_cons.mp member with rfl | member
    · exact .leaf nofun
    · rw [List.mem_singleton] at member
      rw [member]
      refine .branchNode (fun branch inBranches child isChild => ?_) nofun
      rw [List.mem_singleton.mp inBranches] at isChild
      contradiction
  exact (accepts_valid_lists (by decide) closed).1.mp ⟨_, rfl⟩

end VirtualPeople.Cc
