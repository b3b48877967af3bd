import VirtualPeople.Cc.ModelSerializer
import VirtualPeople.Cc.References

/-!
# Building a node list back

A node list is expanded by putting each entry where it is referred to, and the
labeler is built from it by taking each built node out of a table.  Both give
back, block by block, what the subtree of the block gives.
-/

namespace VirtualPeople.Cc

variable {X : Externals}

/-! ## Expanding references -/

/-- The tree without any index field. -/
def clearIndexes (node : CompiledNode X) : CompiledNode X :=
  node.fold fun _ type => .mk none type

/-- Indexes are cleared all through the node. -/
@[simp] theorem clearIndexes_mk (index : Option UInt32)
    (type : NodeType X (CompiledNode X)) :
    clearIndexes (.mk index type) = .mk none (type.map clearIndexes) :=
  CompiledNode.fold_mk _ index type

/-- The branch with the expanded node in place of the index it refers to. -/
def expandBranch (expanded : List (CompiledNode X))
    (branch : Branch X (CompiledNode X)) : Branch X (CompiledNode X) :=
  match branch.childNode with
  | .nodeIndex index =>
    match expanded[index.toNat]? with
    | some node => ⟨.node node, branch.selectBy⟩
    | none => branch
  | _ => branch

/-- The node with its branches expanded. -/
def expandNode (expanded : List (CompiledNode X)) :
    CompiledNode X → CompiledNode X
  | .mk index (.branchNode config) => .mk index (.branchNode
      { config with branches := config.branches.map (expandBranch expanded) })
  | node => node

/-- The entries with their references replaced, after those expanded before. -/
def expandNodes (expanded nodes : List (CompiledNode X)) :
    List (CompiledNode X) :=
  nodes.foldl (fun expanded node => expanded ++ [expandNode expanded node])
    expanded

/-- A leaf has nothing to expand. -/
theorem expandNode_of_leaf (expanded : List (CompiledNode X))
    (index : Option UInt32) {type : NodeType X (CompiledNode X)}
    (isLeaf : ∀ config, type ≠ .branchNode config) :
    expandNode expanded (.mk index type) = .mk index type := by
  cases type with
  | branchNode config => exact absurd rfl (isLeaf config)
  | _ => rfl

mutual

/-- Expanding a block ends with the subtree of the block. -/
theorem Block.expand {first : ℕ} {node : CompiledNode X}
    {block : List (CompiledNode X)} (isBlock : Block first node block)
    (bound : first + block.length ≤ 2 ^ 32)
    {expanded : List (CompiledNode X)} (length : expanded.length = first) :
    ∃ grown, expandNodes expanded block = expanded ++ grown ∧
      grown.length = block.length ∧
        grown.getLast?.map clearIndexes = some (clearIndexes node) := by
  cases isBlock with
  | @leaf _ index type isLeaf =>
    refine ⟨[.mk (some (UInt32.ofNat first)) type], ?_, rfl, ?_⟩
    · change expanded ++ [expandNode _ _] = _
      rw [expandNode_of_leaf _ _ isLeaf]
    · rw [List.getLast?_singleton, Option.map_some, clearIndexes_mk,
        clearIndexes_mk]
  | @branch _ index branches branches' randomSeed action entries children =>
    rw [List.length_append, List.length_singleton] at bound
    obtain ⟨grown, grownEq, lengthEq, expands⟩ :=
      Blocks.expand children (by omega) length
    have expandsHere := expands []
    rw [List.append_nil] at expandsHere
    refine ⟨grown ++ [expandNode (expanded ++ grown)
      (.mk (some (UInt32.ofNat (first + entries.length)))
        (.branchNode ⟨branches', randomSeed, action⟩))], ?_,
      by simp [lengthEq], ?_⟩
    · unfold expandNodes at grownEq ⊢
      rw [List.foldl_append, grownEq, List.foldl_cons, List.foldl_nil,
        List.append_assoc]
    · rw [List.getLast?_concat, Option.map_some, expandNode, clearIndexes_mk,
        clearIndexes_mk]
      simp only [NodeType.map, BranchNode.map, expandsHere]

/-- Expanding the blocks gives the branches with their inline children. -/
theorem Blocks.expand {first : ℕ}
    {branches branches' : List (Branch X (CompiledNode X))}
    {entries : List (CompiledNode X)}
    (areBlocks : Blocks first branches branches' entries)
    (bound : first + entries.length ≤ 2 ^ 32)
    {expanded : List (CompiledNode X)} (length : expanded.length = first) :
    ∃ grown, expandNodes expanded entries = expanded ++ grown ∧
      grown.length = entries.length ∧ ∀ later,
        (branches'.map (expandBranch (expanded ++ grown ++ later))).map
            (Branch.map clearIndexes) =
          branches.map (Branch.map clearIndexes) := by
  cases areBlocks with
  | nil => exact ⟨[], by simp [expandNodes], rfl, fun _ => rfl⟩
  | @cons _ child selectBy branches branches' block entries head tail =>
    rw [List.length_append] at bound
    have headPos := head.length_pos
    obtain ⟨grown, grownEq, grownLength, lastEq⟩ :=
      Block.expand head (by omega) length
    obtain ⟨grown', grownEq', grownLength', expands⟩ :=
      @Blocks.expand _ _ _ _ tail (by omega) (expanded ++ grown)
        (by rw [List.length_append, length, grownLength])
    refine ⟨grown ++ grown', ?_, by simp [grownLength, grownLength'],
      fun later => ?_⟩
    · unfold expandNodes at grownEq grownEq' ⊢
      rw [List.foldl_append, grownEq, grownEq', List.append_assoc]
    · obtain ⟨last, lastFound, lastClear⟩ := Option.map_eq_some_iff.mp lastEq
      rw [List.getLast?_eq_getElem?] at lastFound
      have headEq : (UInt32.ofNat (first + block.length - 1)).toNat =
          expanded.length + (grown.length - 1) := by
        rw [UInt32.toNat_ofNat_of_lt' (show _ < 2 ^ 32 by omega)]
        omega
      have found : (expanded ++ (grown ++ grown') ++ later)[
          (UInt32.ofNat (first + block.length - 1)).toNat]? = some last := by
        rw [headEq, List.append_assoc, List.append_assoc,
          List.getElem?_append_right (Nat.le_add_right _ _),
          Nat.add_sub_cancel_left,
          List.getElem?_append_left (by omega), lastFound]
      have restEq := expands later
      rw [List.append_assoc expanded] at restEq
      simp only [List.map_cons, expandBranch, found, restEq]
      simp only [Branch.map, ChildNode.map, lastClear]

end

/-! ## Taking nodes out of the table -/

/-- Taking some nodes out does not touch the others. -/
theorem mapM_appendChildNode_frame {key : UInt32}
    {branches : List (Branch X (Builder X))}
    (others : ∀ branch ∈ branches, ∃ index ≠ key,
      branch.childNode = .nodeIndex index)
    {refs refs' : NodeRefs X} {children : List (ModelNode X)}
    (run : branches.mapM appendChildNode refs = .ok children refs') :
    refs.lookup key = refs'.lookup key ∧
      branches.mapM appendChildNode (refs.erase key) =
        .ok children (refs'.erase key) := by
  induction branches generalizing refs children with
  | nil =>
    injection run with noChildren sameRefs
    rw [← noChildren, ← sameRefs]
    exact ⟨rfl, rfl⟩
  | cons branch branches inductionHypothesis =>
    obtain ⟨⟨index, different, isReference⟩, othersRest⟩ :=
      List.forall_mem_cons.mp others
    obtain ⟨childNode, selectBy⟩ := branch
    simp only at isReference
    subst isReference
    rw [List.mapM_cons] at run ⊢
    simp only [Step.run_bind_eq_ok_iff, appendChildNode_nodeIndex,
      Step.run_pure, EStateM.Result.ok.injEq] at run ⊢
    obtain ⟨child, _, ⟨found, rfl⟩, rest, _, restRun, rfl, rfl⟩ := run
    obtain ⟨lookupEq, restErased⟩ := inductionHypothesis othersRest restRun
    refine ⟨by rw [← lookupEq, AList.lookup_erase_ne different.symm], child,
      (refs.erase key).erase index,
      ⟨by rw [AList.lookup_erase_ne different, found], rfl⟩, rest, _, ?_, rfl,
      rfl⟩
    rwa [AList.erase_erase]

/-! ## Adding the entries of a block -/

/-- A built node with a fresh index is added to the table. -/
theorem addNode_of_ok {nodeConfig : CompiledNode X} {index : UInt32}
    (indexed : nodeConfig.index = some index) {refs refs' : NodeRefs X}
    {node : ModelNode X}
    (built : ModelNode.build nodeConfig refs = .ok node refs')
    (fresh : index ∉ refs') :
    Labeler.addNode none nodeConfig refs = .ok none (refs'.insert index node) := by
  unfold Labeler.addNode
  rw [indexed]
  simp only
  rw [Step.run_bind_of_ok _ built, Step.run_bind_of_ok _ (Step.run_get refs'),
    if_neg fresh]
  rfl

/-- A node that cannot be built is not added. -/
theorem addNode_of_error {nodeConfig : CompiledNode X} {index : UInt32}
    (indexed : nodeConfig.index = some index) {refs final : NodeRefs X}
    {fault : Fault}
    (failed : ModelNode.build nodeConfig refs = .error fault final) :
    Labeler.addNode none nodeConfig refs = .error fault final := by
  unfold Labeler.addNode
  rw [indexed]
  exact Step.run_bind_of_error _ failed

/-- The index of a node plays no part in building it. -/
theorem build_leaf_eq (index index' : Option UInt32)
    (type : NodeType X (CompiledNode X)) :
    ModelNode.build (.mk index type) = ModelNode.build (.mk index' type) := by
  rw [ModelNode.build_mk, ModelNode.build_mk]

/-- A branch is built from its children, however they were built. -/
theorem build_branch_run {index : Option UInt32}
    {branches : List (Branch X (CompiledNode X))} {randomSeed : String}
    {action : Action X (CompiledNode X)} (nonempty : branches.length ≠ 0)
    {refs refs' : NodeRefs X} {children : List (ModelNode X)}
    (run : (branches.map (Branch.map ModelNode.build)).mapM appendChildNode
      refs = .ok children refs') :
    ModelNode.build (.mk index (.branchNode ⟨branches, randomSeed, action⟩))
        refs =
      (Step.lift (ModelNode.branchNode <$> BranchNodeImpl.assemble
        (branches.map (·.selectBy)) randomSeed (action.map ModelNode.build)
        children) : Builder X) refs' := by
  rw [ModelNode.build_mk]
  simp only [NodeType.map, ModelNode.buildType, BranchNodeImpl.build,
    BranchNode.map, List.length_map, if_neg nonempty]
  have selections : (branches.map (Branch.map ModelNode.build)).map
      (·.selectBy) = branches.map (·.selectBy) := by
    rw [List.map_map]
    rfl
  rw [bind_assoc, Step.run_bind_of_ok _ run, selections]
  cases BranchNodeImpl.assemble (branches.map (·.selectBy)) randomSeed
    (action.map ModelNode.build) children <;> rfl

/-- The branches are selected as before. -/
theorem Blocks.selectBy_eq {first : ℕ}
    {branches branches' : List (Branch X (CompiledNode X))}
    {entries : List (CompiledNode X)}
    (areBlocks : Blocks first branches branches' entries) :
    branches'.map (·.selectBy) = branches.map (·.selectBy) := by
  cases areBlocks with
  | nil => rfl
  | cons head tail => rw [List.map_cons, List.map_cons, tail.selectBy_eq]

/-- The branches refer to their children. -/
theorem Blocks.childNode_eq {first : ℕ}
    {branches branches' : List (Branch X (CompiledNode X))}
    {entries : List (CompiledNode X)}
    (areBlocks : Blocks first branches branches' entries) :
    ∀ branch ∈ branches', ∃ index ∈ branchReferences branches',
      branch.childNode = .nodeIndex index := by
  cases areBlocks with
  | nil => exact nofun
  | cons head tail =>
    rintro branch member
    rcases List.mem_cons.mp member with rfl | inTail
    · exact ⟨_, List.mem_cons_self, rfl⟩
    · obtain ⟨index, indexMem, childEq⟩ := tail.childNode_eq branch inTail
      exact ⟨index, List.mem_cons_of_mem _ indexMem, childEq⟩

theorem toNat_ofNat_lt {first length : ℕ} (bound : first + length ≤ 2 ^ 32) :
    (UInt32.ofNat (first + length - 1)).toNat = first + length - 1 :=
  UInt32.toNat_ofNat_of_lt' (show _ < 2 ^ 32 by omega)

/-- All the keys of a table are below an index. -/
def KeysBelow (bound : ℕ) (refs : NodeRefs X) : Prop :=
  ∀ key ∈ refs, key.toNat < bound

/-- An index from the bound on is not in the table. -/
theorem KeysBelow.notMem {bound : ℕ} {refs : NodeRefs X}
    (below : KeysBelow bound refs) {key : UInt32} (le : bound ≤ key.toNat) :
    key ∉ refs := fun member => absurd (below key member) (by omega)

/-- The index of the last entry of a block is below the end of the block. -/
theorem KeysBelow.insert {first length : ℕ} {refs : NodeRefs X}
    (below : KeysBelow first refs) (positive : 0 < length)
    (bound : first + length ≤ 2 ^ 32) (built : ModelNode X) :
    KeysBelow (first + length)
      (refs.insert (UInt32.ofNat (first + length - 1)) built) := by
  have indexEq := toNat_ofNat_lt bound
  intro key member
  rcases (AList.mem_insert _).mp member with same | earlier
  · rw [same]
    omega
  · exact Nat.lt_of_lt_of_le (below key earlier) (Nat.le_add_right _ _)

/-- The branches of later blocks do not refer to an earlier index. -/
theorem Blocks.exists_other_index {first : ℕ}
    {branches branches' : List (Branch X (CompiledNode X))}
    {entries : List (CompiledNode X)}
    (areBlocks : Blocks first branches branches' entries)
    (bound : first + entries.length ≤ 2 ^ 32) {known : UInt32}
    (earlier : known.toNat < first) :
    ∀ branch ∈ branches'.map (Branch.map ModelNode.build),
      ∃ index ≠ known, branch.childNode = .nodeIndex index := by
  intro branch member
  obtain ⟨source, sourceMem, rfl⟩ := List.mem_map.mp member
  obtain ⟨index, indexMem, childEq⟩ := areBlocks.childNode_eq source sourceMem
  have lower := (areBlocks.branchReferences_lt bound index indexMem).1
  refine ⟨index, ?_, ?_⟩
  · rintro rfl
    omega
  · rw [Branch.map, childEq]
    rfl

/-- A branch in front takes the node of its index, which the others leave
alone. -/
theorem mapM_appendChildNode_cons_nodeIndex {index : UInt32}
    {selectBy : SelectBy X} {branches : List (Branch X (Builder X))}
    {refs refs' : NodeRefs X} {built : ModelNode X}
    {children : List (ModelNode X)} (fresh : index ∉ refs)
    (others : ∀ branch ∈ branches,
      ∃ other ≠ index, branch.childNode = .nodeIndex other)
    (taken : branches.mapM appendChildNode refs' =
      .ok children (refs.insert index built)) :
    ((⟨.nodeIndex index, selectBy⟩ : Branch X (Builder X)) ::
      branches).mapM appendChildNode refs' = .ok (built :: children) refs := by
  obtain ⟨lookupEq, takenErased⟩ := mapM_appendChildNode_frame others taken
  rw [erase_insert_of_notMem fresh] at takenErased
  have found : refs'.lookup index = some built := by
    rw [lookupEq, AList.lookup_insert]
  have headTaken : appendChildNode
      (⟨.nodeIndex index, selectBy⟩ : Branch X (Builder X)) refs' =
        .ok built (refs'.erase index) :=
    appendChildNode_nodeIndex.mpr ⟨found, rfl⟩
  rw [List.mapM_cons, Step.run_bind_of_ok _ headTaken,
    Step.run_bind_of_ok _ takenErased]
  rfl

/-- The entries leave one more node in the table, or fail as it does. -/
def AddsNode (first : ℕ) (block : List (CompiledNode X)) (refs : NodeRefs X) :
    Result (ModelNode X) → Prop
  | .ok built => block.foldlM Labeler.addNode none refs = .ok none
      (refs.insert (UInt32.ofNat (first + block.length - 1)) built)
  | .error fault => ∃ final,
      block.foldlM Labeler.addNode none refs = .error fault final

/-- The entries leave the children in the table, for the branches that refer
to them to take out, or fail as the children do. -/
def AddsChildren (first : ℕ) (branches' : List (Branch X (CompiledNode X)))
    (entries : List (CompiledNode X)) (refs : NodeRefs X) :
    Result (List (ModelNode X)) → Prop
  | .ok children => ∃ refs',
      entries.foldlM Labeler.addNode none refs = .ok none refs' ∧
      (branches'.map (Branch.map ModelNode.build)).mapM appendChildNode refs' =
        .ok children refs ∧
      KeysBelow (first + entries.length) refs'
  | .error fault => ∃ final,
      entries.foldlM Labeler.addNode none refs = .error fault final

/-- The last entry of a block finds its children in the table, and its own
index free. -/
theorem addsNode_of_last {first : ℕ} {entries : List (CompiledNode X)}
    {entry : CompiledNode X} {refs refs' : NodeRefs X}
    {result : Result (ModelNode X)}
    (indexed : entry.index = some (UInt32.ofNat (first + entries.length)))
    (bound : first + (entries.length + 1) ≤ 2 ^ 32)
    (below : KeysBelow first refs)
    (folded : entries.foldlM Labeler.addNode none refs = .ok none refs')
    (built : ModelNode.build entry refs' =
      (Step.lift result : Builder X) refs) :
    AddsNode first (entries ++ [entry]) refs result := by
  have foldEq : (entries ++ [entry]).foldlM Labeler.addNode none refs =
      Labeler.addNode none entry refs' := by
    rw [List.foldlM_append, Step.run_bind_of_ok _ folded, List.foldlM_cons]
    exact congrFun (bind_pure _) refs'
  cases result with
  | error fault => exact ⟨refs, foldEq.trans (addNode_of_error indexed built)⟩
  | ok node =>
    have indexEq := toNat_ofNat_lt bound
    rw [← Nat.add_assoc, Nat.add_sub_cancel] at indexEq
    have added := addNode_of_ok indexed built (below.notMem (by omega))
    unfold AddsNode
    rw [foldEq, added, List.length_append, List.length_singleton,
      ← Nat.add_assoc, Nat.add_sub_cancel]

mutual

/-- The nodes of a block are added, and leave the root of the block. -/
theorem Block.addNodes {first : ℕ} {node : CompiledNode X}
    {block : List (CompiledNode X)} (isBlock : Block first node block)
    (bound : first + block.length ≤ 2 ^ 32) {refs : NodeRefs X}
    (below : KeysBelow first refs) :
    AddsNode first block refs (ModelNode.build node).alone := by
  obtain ⟨result, resultEq⟩ := isBlock.build_eq
  rw [resultEq, Builder.alone_lift]
  cases isBlock with
  | @leaf _ index type isLeaf =>
    rw [build_leaf_eq index (some (UInt32.ofNat first))] at resultEq
    exact @addsNode_of_last _ _ [] _ _ _ _ rfl bound below rfl
      (by rw [resultEq])
  | @branch _ index branches branches' randomSeed action entries children =>
    rw [List.length_append, List.length_singleton] at bound
    obtain ⟨results, resultsEq⟩ := children.mapM_eq
    have added := Blocks.addNodes children (by omega) below resultsEq
    have lengthEq : branches'.length = branches.length := by
      simpa using congrArg List.length children.selectBy_eq
    by_cases empty : branches.length = 0
    · -- Without branches there are no entries, and the node fails.
      have noBranches := List.length_eq_zero_iff.mp empty
      subst noBranches
      cases children
      refine addsNode_of_last rfl bound below rfl ?_
      rw [build_leaf_eq _ index, resultEq]
    · have childrenRun := congrFun resultsEq refs
      cases results with
      | error fault =>
        obtain ⟨final, failed⟩ := added
        have nodeFails : ModelNode.build (.mk index (.branchNode
            ⟨branches, randomSeed, action⟩)) refs = .error fault refs := by
          rw [ModelNode.build_mk]
          simp only [NodeType.map, ModelNode.buildType, BranchNodeImpl.build,
            BranchNode.map, List.length_map, if_neg empty]
          exact Step.run_bind_of_error _ (Step.run_bind_of_error _ childrenRun)
        rw [resultEq] at nodeFails
        cases result with
        | ok built => contradiction
        | error fault' =>
          injection nodeFails with sameFault
          rw [sameFault]
          refine ⟨final, ?_⟩
          rw [List.foldlM_append]
          exact Step.run_bind_of_error _ failed
      | ok childNodes =>
        obtain ⟨refs', folded, taken, -⟩ := added
        have nodeBuilt := @build_branch_run _ index _ randomSeed action empty
          refs _ _ childrenRun
        have entryBuilt := @build_branch_run _
          (some (UInt32.ofNat (first + entries.length))) _ randomSeed action
          (by rwa [lengthEq]) _ _ _ taken
        rw [children.selectBy_eq, ← nodeBuilt, resultEq] at entryBuilt
        exact addsNode_of_last rfl bound below folded entryBuilt

/-- The nodes of the blocks are added, and leave the children of the branches. -/
theorem Blocks.addNodes {first : ℕ}
    {branches branches' : List (Branch X (CompiledNode X))}
    {entries : List (CompiledNode X)}
    (areBlocks : Blocks first branches branches' entries)
    (bound : first + entries.length ≤ 2 ^ 32) {refs : NodeRefs X}
    (below : KeysBelow first refs) {results : Result (List (ModelNode X))}
    (resultsEq : (branches.map (Branch.map ModelNode.build)).mapM
      appendChildNode = Step.lift results) :
    AddsChildren first branches' entries refs results := by
  cases areBlocks with
  | nil =>
    have runEq := congrFun resultsEq refs
    cases results with
    | error fault => contradiction
    | ok children =>
      injection runEq with noChildren
      rw [← noChildren]
      exact ⟨refs, rfl, rfl, below⟩
  | @cons _ child selectBy branches branches' block entries head tail =>
    rw [List.length_append, ← Nat.add_assoc] at bound
    have headPos := head.length_pos
    obtain ⟨result, resultEq⟩ := head.build_eq
    obtain ⟨rest, restEq⟩ := tail.mapM_eq
    have addedHead := Block.addNodes head (by omega) below
    have runEq := congrFun resultsEq refs
    rw [List.map_cons] at runEq
    change ((⟨.node (ModelNode.build child), selectBy⟩ :
      Branch X (Builder X)) :: _).mapM appendChildNode refs = _ at runEq
    rw [mapM_appendChildNode_cons_node, resultEq, restEq] at runEq
    rw [resultEq, Builder.alone_lift] at addedHead
    cases result with
    | error fault =>
      obtain ⟨final, failed⟩ := addedHead
      cases results with
      | ok children => contradiction
      | error fault' =>
        injection runEq with sameFault
        rw [← sameFault]
        refine ⟨final, ?_⟩
        rw [List.foldlM_append]
        exact Step.run_bind_of_error _ failed
    | ok built =>
      have indexEq := toNat_ofNat_lt
        (show first + block.length ≤ 2 ^ 32 by omega)
      have fresh : UInt32.ofNat (first + block.length - 1) ∉ refs :=
        below.notMem (by omega)
      have belowHead := below.insert headPos (by omega) built
      have addedTail := Blocks.addNodes tail (by omega) belowHead restEq
      have foldEq : (block ++ entries).foldlM Labeler.addNode none refs =
          entries.foldlM Labeler.addNode none (refs.insert
            (UInt32.ofNat (first + block.length - 1)) built) := by
        rw [List.foldlM_append, Step.run_bind_of_ok _ addedHead]
      cases rest with
      | error fault =>
        obtain ⟨final, failed⟩ := addedTail
        cases results with
        | ok children => contradiction
        | error fault' =>
          injection runEq with sameFault
          rw [← sameFault]
          exact ⟨final, foldEq.trans failed⟩
      | ok children =>
        obtain ⟨refs', folded, taken, below'⟩ := addedTail
        cases results with
        | error fault => contradiction
        | ok all =>
          injection runEq with allEq
          rw [← allEq]
          have below'' : KeysBelow (first + (block ++ entries).length) refs' := by
            rwa [List.length_append, ← Nat.add_assoc]
          refine ⟨refs', foldEq.trans folded, ?_, below''⟩
          have others := tail.exists_other_index (by omega)
            (show (UInt32.ofNat (first + block.length - 1)).toNat < _ by omega)
          exact mapM_appendChildNode_cons_nodeIndex fresh others taken

end

/-! ## The round trip -/

/-- A model has a list unless it cannot be built. -/
theorem toNodeListRepresentation_cases (root : CompiledNode X) :
    match toNodeListRepresentation root with
    | .ok nodes => Block 0 root nodes
    | .error _ => ∃ fault, Labeler.build root = .error fault := by
  have walks := walksNode root 0 []
  unfold toNodeListRepresentation
  split at walks <;> rename_i walked <;> rw [walked]
  · obtain ⟨block, isBlock, -, finalEq⟩ := walks
    rw [finalEq]
    exact isBlock
  · obtain ⟨fault, refs, failed⟩ := walks
    refine ⟨fault, ?_⟩
    unfold Labeler.build
    rw [Builder.alone_of_error failed]
    rfl

/-- The only node of the table is the root. -/
@[simp] theorem takeRoot_singleton (index : UInt32) (node : ModelNode X) :
    Labeler.takeRoot none ((∅ : NodeRefs X).insert index node) =
      .ok node ∅ := by
  change EStateM.Result.ok node
    (((∅ : NodeRefs X).insert index node).erase index) = _
  rw [erase_insert_of_notMem (AList.notMem_empty index)]

/-- The labeler built from the list of a tree is the one of the tree. -/
theorem Block.buildFromList_eq {root : CompiledNode X}
    {nodes : List (CompiledNode X)} (isBlock : Block 0 root nodes)
    (bound : nodes.length ≤ 2 ^ 32) :
    Labeler.buildFromList nodes = Labeler.build root := by
  have added := @Block.addNodes _ _ _ _ isBlock (by omega) ∅
    (fun key member => absurd member (AList.notMem_empty key))
  unfold Labeler.buildFromList Labeler.build Builder.alone Labeler.buildNodes
  unfold Builder.alone at added
  cases built : ModelNode.build root ∅ with
  | error fault refs =>
    rw [built] at added
    obtain ⟨final, failed⟩ := added
    rw [Step.run_bind_of_error _ failed]
  | ok node refs =>
    rw [built] at added
    rw [Step.run_bind_of_ok _ added,
      Step.run_bind_of_ok _ (takeRoot_singleton _ node)]
    rfl

/-- The number of nodes of a tree, update trees apart. -/
def nodeCount (root : CompiledNode X) : ℕ :=
  root.fold fun _ type =>
    match type with
    | .branchNode config =>
      (config.branches.filterMap (·.childNode.inlined)).sum + 1
    | _ => 1

mutual

/-- A block has as many nodes as the tree. -/
theorem Block.length_eq {first : ℕ} {node : CompiledNode X}
    {block : List (CompiledNode X)} (isBlock : Block first node block) :
    block.length = nodeCount node := by
  cases isBlock with
  | @leaf _ index type isLeaf =>
    unfold nodeCount
    rw [CompiledNode.fold_mk]
    cases type with
    | branchNode config => exact absurd rfl (isLeaf config)
    | _ => rfl
  | branch children =>
    rw [List.length_append, Blocks.length_eq children, nodeCount,
      CompiledNode.fold_mk]
    rfl

/-- The blocks have as many nodes as the inline children. -/
theorem Blocks.length_eq {first : ℕ}
    {branches branches' : List (Branch X (CompiledNode X))}
    {entries : List (CompiledNode X)}
    (areBlocks : Blocks first branches branches' entries) :
    entries.length = ((branches.map (Branch.map nodeCount)).filterMap
      (·.childNode.inlined)).sum := by
  cases areBlocks with
  | nil => rfl
  | cons head tail =>
    rw [List.length_append, Block.length_eq head, Blocks.length_eq tail]
    rfl

end

/-- What a node list says about the tree it was made of. -/
structure IsNodeList (root : CompiledNode X) (nodes : List (CompiledNode X)) :
    Prop where
  /-- The entries are numbered in order. -/
  indexes : ∀ (position : ℕ) (entry : CompiledNode X),
    nodes[position]? = some entry →
      ∃ index, entry.index = some index ∧ index.toNat = position
  /-- Every reference is to an earlier entry. -/
  earlier : ∀ (position : ℕ) (entry : CompiledNode X),
    nodes[position]? = some entry →
      ∀ index ∈ references entry, index.toNat < position
  /-- Every entry but the last is referred to exactly once. -/
  once : ∀ index, ((nodes.flatMap references).map UInt32.toNat).count index =
    if index + 1 < nodes.length then 1 else 0
  /-- The last entry expands to the tree. -/
  expands : (expandNodes [] nodes).getLast?.map clearIndexes =
    some (clearIndexes root)

/-- The block of the root is its node list. -/
theorem Block.isNodeList {root : CompiledNode X}
    {nodes : List (CompiledNode X)} (isBlock : Block 0 root nodes)
    (bound : nodes.length ≤ 2 ^ 32) : IsNodeList root nodes where
  indexes position entry found := by
    have inside := (List.getElem?_eq_some_iff.mp found).1
    have indexEq := congrArg (·[position]?) isBlock.indexes
    simp only [List.getElem?_map, found, Option.map_some,
      List.getElem?_range' inside, Option.some_inj] at indexEq
    refine ⟨_, indexEq, ?_⟩
    rw [UInt32.toNat_ofNat_of_lt' (show _ < 2 ^ 32 by omega)]
    omega
  earlier position entry found index member := by
    simpa using isBlock.references_lt (by omega) found index member
  once index := by
    rw [(isBlock.references_perm (by omega)).count_eq,
      List.Nodup.count List.nodup_range']
    have positive := isBlock.length_pos
    simp only [List.mem_range'_1, Nat.zero_le, true_and, Nat.zero_add]
    split_ifs <;> omega
  expands := by
    obtain ⟨grown, grownEq, -, lastEq⟩ :=
      @Block.expand _ _ _ _ isBlock (by omega) [] rfl
    rw [grownEq]
    exact lastEq

/-- A tree of fewer than `2 ^ 32` nodes that is converted to a node list is
represented by the list, and both build to the same labeler; a tree that is
not converted does not build. -/
theorem node_list_round_trip (root : CompiledNode X)
    (small : nodeCount root < 2 ^ 32) :
    (∀ nodes, toNodeListRepresentation root = .ok nodes →
      IsNodeList root nodes ∧
      (∀ labeler, Labeler.buildFromList nodes = .ok labeler ↔
        Labeler.build root = .ok labeler) ∧
      (∀ fromList fromRoot, Labeler.buildFromList nodes = .ok fromList →
        Labeler.build root = .ok fromRoot → ∀ input mode,
          fromList.label input mode = fromRoot.label input mode)) ∧
    (∀ fault, toNodeListRepresentation root = .error fault →
      ∃ fault', Labeler.build root = .error fault') := by
  have cases := toNodeListRepresentation_cases root
  constructor
  · intro nodes converted
    rw [converted] at cases
    have bound : nodes.length ≤ 2 ^ 32 := by
      rw [cases.length_eq]
      omega
    have sameResult := cases.buildFromList_eq bound
    refine ⟨cases.isNodeList bound, fun labeler => by rw [sameResult], ?_⟩
    intro fromList fromRoot builtList builtRoot input mode
    rw [sameResult, builtRoot] at builtList
    rw [Except.ok.inj builtList]
  · intro fault failed
    rw [failed] at cases
    exact cases

/-- A branch with a stop node below it. -/
theorem node_list_round_trip_branch :
    let root : CompiledNode .constant := .mk none (.branchNode
      ⟨[⟨.node (.mk none .stopNode), .chance 1.0⟩], "seed", .notSet⟩)
    IsNodeList root [.mk (some 0) .stopNode, .mk (some 1) (.branchNode
      ⟨[⟨.nodeIndex 0, .chance 1.0⟩], "seed", .notSet⟩)] := by
  intro root
  exact ((node_list_round_trip root (by decide)).1 _ rfl).1

end VirtualPeople.Cc
