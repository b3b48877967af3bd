import VirtualPeople.Cc.Labeler

/-!
# Node list representation

`ToNodeListRepresentation` walks a model tree, appends each node after its
children, and replaces the children by their indexes.  The nodes it appends for
one subtree form a block; all that is known of the list follows from what
blocks are, by induction on them.
-/

namespace VirtualPeople.Cc

variable {X : Externals}

/-! ## The walk -/

section Walk

mutual

/-- The node as the walk leaves it, and the next index. -/
def addToNodeList (nextIndex : ℕ) : CompiledNode X →
    Step (List (CompiledNode X)) (CompiledNode X × ℕ)
  | .mk _ (.branchNode ⟨branches, randomSeed, action⟩) => do
    let (branches, nextIndex) ← addChildren nextIndex branches
    let node := .mk (some (UInt32.ofNat nextIndex))
      (.branchNode ⟨branches, randomSeed, action⟩)
    modify (· ++ [node])
    return (node, nextIndex + 1)
  | .mk _ type => do
    let node := .mk (some (UInt32.ofNat nextIndex)) type
    modify (· ++ [node])
    return (node, nextIndex + 1)

/-- The children of the branches are appended, and replaced by their indexes. -/
def addChildren (nextIndex : ℕ) : List (Branch X (CompiledNode X)) →
    Step (List (CompiledNode X)) (List (Branch X (CompiledNode X)) × ℕ)
  | [] => return ([], nextIndex)
  | ⟨.nodeIndex _, _⟩ :: _ =>
    throw (invalidArgument
      "Single node representation shouldn't use node_index. ")
  | ⟨.notSet, _⟩ :: _ =>
    throw (invalidArgument "branch child_node is not set. ")
  | ⟨.node child, selectBy⟩ :: branches => do
    let (_, nextIndex) ← addToNodeList nextIndex child
    let (branches, lastIndex) ← addChildren nextIndex branches
    return (⟨.nodeIndex (UInt32.ofNat (nextIndex - 1)), selectBy⟩ :: branches,
      lastIndex)

end

end Walk

/-- `ToNodeListRepresentation`: the nodes of the tree, children before parents. -/
def toNodeListRepresentation (root : CompiledNode X) :
    Result (List (CompiledNode X)) :=
  match addToNodeList 0 root [] with
  | .ok _ nodeList => return nodeList
  | .error fault _ => throw fault

example : toNodeListRepresentation (X := .constant) (.mk none (.branchNode
    ⟨[⟨.node (.mk none .stopNode), .chance 1.0⟩], "seed", .notSet⟩)) =
      .ok [.mk (some 0) .stopNode, .mk (some 1) (.branchNode
        ⟨[⟨.nodeIndex 0, .chance 1.0⟩], "seed", .notSet⟩)] := rfl

/-! ## Blocks -/

mutual

/-- The entries for a subtree that starts at an index. -/
inductive Block : ℕ → CompiledNode X → List (CompiledNode X) → Prop
  | leaf {first : ℕ} {index : Option UInt32}
      {type : NodeType X (CompiledNode X)}
      (isLeaf : ∀ config, type ≠ .branchNode config) :
      Block first (.mk index type) [.mk (some (UInt32.ofNat first)) type]
  | branch {first : ℕ} {index : Option UInt32}
      {branches branches' : List (Branch X (CompiledNode X))}
      {randomSeed : String} {action : Action X (CompiledNode X)}
      {entries : List (CompiledNode X)}
      (children : Blocks first branches branches' entries) :
      Block first (.mk index (.branchNode ⟨branches, randomSeed, action⟩))
        (entries ++ [.mk (some (UInt32.ofNat (first + entries.length)))
          (.branchNode ⟨branches', randomSeed, action⟩)])

/-- The entries for the children of branches, and the branches that refer to
them. -/
inductive Blocks : ℕ → List (Branch X (CompiledNode X)) →
    List (Branch X (CompiledNode X)) → List (CompiledNode X) → Prop
  | nil {first : ℕ} : Blocks first [] [] []
  | cons {first : ℕ} {child : CompiledNode X} {selectBy : SelectBy X}
      {branches branches' : List (Branch X (CompiledNode X))}
      {block entries : List (CompiledNode X)} (head : Block first child block)
      (tail : Blocks (first + block.length) branches branches' entries) :
      Blocks first (⟨.node child, selectBy⟩ :: branches)
        (⟨.nodeIndex (UInt32.ofNat (first + block.length - 1)), selectBy⟩ ::
          branches')
        (block ++ entries)

end

theorem Block.length_pos {first : ℕ} {node : CompiledNode X}
    {block : List (CompiledNode X)} (isBlock : Block first node block) :
    0 < block.length := by
  cases isBlock <;> simp

/-! ## Building subtrees without references -/

/-- An inline child is built before the children after it. -/
theorem mapM_appendChildNode_cons_node (build : Builder X)
    (selectBy : SelectBy X) (branches : List (Branch X (Builder X))) :
    ((⟨.node build, selectBy⟩ : Branch X (Builder X)) :: branches).mapM
        appendChildNode =
      build >>= fun child => branches.mapM appendChildNode >>= fun children =>
        pure (child :: children) := by
  rw [List.mapM_cons]
  rfl

mutual

/-- A subtree whose nodes are all inline leaves the table of nodes alone. -/
theorem Block.build_eq {first : ℕ} {node : CompiledNode X}
    {block : List (CompiledNode X)} (isBlock : Block first node block) :
    ∃ result, ModelNode.build node = Step.lift result := by
  cases isBlock with
  | @leaf _ index type isLeaf =>
    rw [ModelNode.build_mk]
    cases type with
    | branchNode config => exact absurd rfl (isLeaf config)
    | stopNode => exact ⟨.ok (.leafNode .stopNode), rfl⟩
    | populationNode config =>
      exact ⟨_, Step.lift_bind (PopulationNodeImpl.buildFromConfig config)
        fun node => .ok (ModelNode.leafNode (.populationNode node))⟩
    | rankedPopulationNode config =>
      exact ⟨_, Step.lift_bind
        (RankedPopulationNodeImpl.buildFromConfig config)
        fun node => .ok (ModelNode.leafNode (.rankedPopulationNode node))⟩
    | notSet => exact ⟨.error _, rfl⟩
  | @branch _ index branches branches' randomSeed action entries children =>
    obtain ⟨results, resultsEq⟩ := Blocks.mapM_eq children
    rw [ModelNode.build_mk]
    change ∃ result, (BranchNodeImpl.build (BranchNode.map ModelNode.build
        ⟨branches, randomSeed, action⟩) >>= fun impl =>
      (Step.lift (.ok (ModelNode.branchNode impl)) : Builder X)) =
        Step.lift result
    simp only [BranchNodeImpl.build, BranchNode.map, resultsEq,
      Step.lift_bind]
    split_ifs
    · exact ⟨.error _, rfl⟩
    · exact ⟨_, Step.lift_bind _ _⟩

/-- The children of the branches are built without the map. -/
theorem Blocks.mapM_eq {first : ℕ}
    {branches branches' : List (Branch X (CompiledNode X))}
    {entries : List (CompiledNode X)}
    (areBlocks : Blocks first branches branches' entries) :
    ∃ results, (branches.map (Branch.map ModelNode.build)).mapM
      appendChildNode = Step.lift results := by
  cases areBlocks with
  | nil => exact ⟨.ok [], rfl⟩
  | cons head tail =>
    obtain ⟨result, resultEq⟩ := Block.build_eq head
    obtain ⟨results, resultsEq⟩ := Blocks.mapM_eq tail
    rw [List.map_cons]
    change ∃ results, ((⟨.node _, _⟩ : Branch X (Builder X)) :: _).mapM
      appendChildNode = _
    rw [mapM_appendChildNode_cons_node, resultEq, resultsEq]
    have pushed : (fun child => Step.lift results >>= fun children =>
        pure (child :: children) : ModelNode X →
          Step (NodeRefs X) (List (ModelNode X))) =
        fun child => Step.lift (results >>= fun children =>
          .ok (child :: children)) := by
      funext child
      exact Step.lift_bind results fun children => .ok (child :: children)
    rw [pushed]
    exact ⟨_, Step.lift_bind _ _⟩

end

/-! ## What the walk appends -/

/-- The walk appends a block for the node, or the node cannot be built. -/
def WalksNode (node : CompiledNode X) : Prop :=
  ∀ first nodeList,
    match addToNodeList first node nodeList with
    | .ok (_, next) final => ∃ block, Block first node block ∧
        next = first + block.length ∧ final = nodeList ++ block
    | .error _ _ => ∃ fault refs, ModelNode.build node ∅ = .error fault refs

/-- Walking the children appends their blocks. -/
theorem addChildren_spec (branches : List (Branch X (CompiledNode X)))
    (walks : ∀ child ∈ branches.filterMap (·.childNode.inlined),
      WalksNode child) (first : ℕ) (nodeList : List (CompiledNode X)) :
    match addChildren first branches nodeList with
    | .ok (branches', next) final => ∃ entries,
        Blocks first branches branches' entries ∧
          next = first + entries.length ∧ final = nodeList ++ entries
    | .error _ _ => ∃ fault refs,
        (branches.map (Branch.map ModelNode.build)).mapM appendChildNode ∅ =
          .error fault refs := by
  induction branches generalizing first nodeList with
  | nil =>
    rw [addChildren]
    exact ⟨[], .nil, rfl, (List.append_nil _).symm⟩
  | cons branch branches inductionHypothesis =>
    obtain ⟨childNode, selectBy⟩ := branch
    rw [List.map_cons]
    cases childNode with
    | nodeIndex index =>
      rw [addChildren]
      exact ⟨_, _, rfl⟩
    | notSet =>
      rw [addChildren]
      exact ⟨_, _, rfl⟩
    | node child =>
      have walksChild := walks child (by simp [ChildNode.inlined]) first nodeList
      have walksRest := inductionHypothesis fun other member =>
        walks other (by
          rw [List.filterMap_cons]
          split
          · exact member
          · exact List.mem_cons_of_mem _ member)
      change match addChildren first _ nodeList with
        | .ok (branches', next) final => _
        | .error _ _ => ∃ fault refs,
          ((⟨.node (ModelNode.build child), selectBy⟩ :
              Branch X (Builder X)) :: _).mapM appendChildNode ∅ =
            .error fault refs
      rw [addChildren, mapM_appendChildNode_cons_node]
      split at walksChild <;> rename_i walked
      · rename_i node next final
        obtain ⟨block, isBlock, nextEq, finalEq⟩ := walksChild
        have rest := walksRest next final
        rw [Step.run_bind_of_ok _ walked]
        split at rest <;> rename_i walkedRest
        · obtain ⟨entries, areBlocks, lastEq, lastListEq⟩ := rest
          simp only
          rw [Step.run_bind_of_ok _ walkedRest]
          rw [nextEq] at areBlocks lastEq ⊢
          refine ⟨block ++ entries, .cons isBlock areBlocks, ?_, ?_⟩
          · rw [lastEq, List.length_append, Nat.add_assoc]
          · rw [lastListEq, finalEq, List.append_assoc]
        · obtain ⟨fault, refs, failed⟩ := rest
          simp only
          rw [Step.run_bind_of_error _ walkedRest]
          obtain ⟨result, resultEq⟩ := isBlock.build_eq
          rw [resultEq]
          cases result with
          | error fault => exact ⟨fault, ∅, rfl⟩
          | ok built =>
            refine ⟨fault, refs, ?_⟩
            rw [Step.lift_ok, pure_bind, Step.run_bind_of_error _ failed]
      · obtain ⟨fault, refs, failed⟩ := walksChild
        rw [Step.run_bind_of_error _ walked]
        exact ⟨fault, refs, Step.run_bind_of_error _ failed⟩

/-- Walking any node appends its block. -/
theorem walksNode (node : CompiledNode X) : WalksNode node := by
  induction node using CompiledNode.induction with
  | step index type inductionHypothesis =>
    intro first nodeList
    cases type with
    | branchNode config =>
      obtain ⟨branches, randomSeed, action⟩ := config
      have walked := addChildren_spec branches
        (fun child member => inductionHypothesis child
          (List.mem_append_left _ member)) first nodeList
      rw [addToNodeList]
      split at walked <;> rename_i children
      · obtain ⟨entries, areBlocks, nextEq, finalEq⟩ := walked
        rw [Step.run_bind_of_ok _ children]
        simp only [nextEq]
        refine ⟨_, .branch areBlocks, by simp [Nat.add_assoc], ?_⟩
        rw [finalEq]
        exact List.append_assoc _ _ _
      · obtain ⟨fault, refs, failed⟩ := walked
        rw [Step.run_bind_of_error _ children, ModelNode.build_mk]
        simp only [NodeType.map, ModelNode.buildType, BranchNodeImpl.build,
          BranchNode.map]
        split_ifs
        · exact ⟨_, _, rfl⟩
        · exact ⟨fault, refs, Step.run_bind_of_error _
            (Step.run_bind_of_error _ failed)⟩
    | stopNode => exact ⟨_, .leaf (by simp), rfl, rfl⟩
    | populationNode config => exact ⟨_, .leaf (by simp), rfl, rfl⟩
    | rankedPopulationNode config => exact ⟨_, .leaf (by simp), rfl, rfl⟩
    | notSet => exact ⟨_, .leaf (by simp), rfl, rfl⟩

/-! ## Indexes and references -/

/-- The index that the child refers to, if it does. -/
def reference {Node : Type} : ChildNode Node → Option UInt32
  | .nodeIndex index => some index
  | _ => none

/-- The node indexes that branches refer to. -/
def branchReferences (branches : List (Branch X (CompiledNode X))) :
    List UInt32 :=
  branches.filterMap fun branch => reference branch.childNode

/-- The node indexes that an entry refers to. -/
def references (node : CompiledNode X) : List UInt32 :=
  match node.type with
  | .branchNode config => branchReferences config.branches
  | _ => []

theorem references_of_leaf {index : Option UInt32}
    {type : NodeType X (CompiledNode X)}
    (isLeaf : ∀ config, type ≠ .branchNode config) :
    references (.mk index type) = [] := by
  cases type with
  | branchNode config => exact absurd rfl (isLeaf config)
  | _ => rfl

mutual

/-- The entries of a block are numbered in order. -/
theorem Block.indexes {first : ℕ} {node : CompiledNode X}
    {block : List (CompiledNode X)} (isBlock : Block first node block) :
    block.map CompiledNode.index = (List.range' first block.length).map
      fun index => some (UInt32.ofNat index) := by
  cases isBlock with
  | leaf isLeaf => rfl
  | branch children =>
    rw [List.map_append, Blocks.indexes children, List.length_append,
      ← List.range'_append_1, List.map_append]
    rfl

/-- The nodes of the blocks are numbered as they stand. -/
theorem Blocks.indexes {first : ℕ}
    {branches branches' : List (Branch X (CompiledNode X))}
    {entries : List (CompiledNode X)}
    (areBlocks : Blocks first branches branches' entries) :
    entries.map CompiledNode.index =
      (List.range' first entries.length).map
        fun index => some (UInt32.ofNat index) := by
  cases areBlocks with
  | nil => rfl
  | cons head tail =>
    rw [List.map_append, Block.indexes head, Blocks.indexes tail,
      List.length_append, ← List.range'_append_1, List.map_append]

end

mutual

/-- Every entry of a block but the last is referred to exactly once. -/
theorem Block.references_perm {first : ℕ} {node : CompiledNode X}
    {block : List (CompiledNode X)} (isBlock : Block first node block)
    (bound : first + block.length ≤ 2 ^ 32) :
    ((block.flatMap references).map UInt32.toNat).Perm
      (List.range' first (block.length - 1)) := by
  cases isBlock with
  | leaf isLeaf =>
    rw [List.flatMap_singleton, references_of_leaf isLeaf]
    exact .nil
  | branch children =>
    rw [List.length_append, List.length_singleton] at bound
    rw [List.flatMap_append, List.flatMap_singleton, List.length_append,
      List.length_singleton, Nat.add_sub_cancel]
    exact Blocks.references_perm children (by omega)

/-- Every node of the blocks is referred to once. -/
theorem Blocks.references_perm {first : ℕ}
    {branches branches' : List (Branch X (CompiledNode X))}
    {entries : List (CompiledNode X)}
    (areBlocks : Blocks first branches branches' entries)
    (bound : first + entries.length ≤ 2 ^ 32) :
    ((entries.flatMap references ++ branchReferences branches').map
      UInt32.toNat).Perm (List.range' first entries.length) := by
  cases areBlocks with
  | nil => exact .nil
  | @cons _ child selectBy branches branches' block entries head tail =>
    rw [List.length_append] at bound
    have headPos := head.length_pos
    have headPerm := Block.references_perm head (by omega)
    have tailPerm := Blocks.references_perm tail (by omega)
    have rangeEq : List.range' first (block ++ entries).length =
        List.range' first (block.length - 1) ++
          (first + block.length - 1) ::
            List.range' (first + block.length) entries.length := by
      have split := @List.range'_append_1 first (block.length - 1)
        (entries.length + 1)
      rw [List.range'_succ] at split
      rw [List.length_append, show block.length + entries.length =
          block.length - 1 + (entries.length + 1) by omega, ← split,
        show first + (block.length - 1) = first + block.length - 1 by omega,
        show first + block.length - 1 + 1 = first + block.length by omega]
    have headEq : (UInt32.ofNat (first + block.length - 1)).toNat =
        first + block.length - 1 :=
      UInt32.toNat_ofNat_of_lt' (show _ < 2 ^ 32 by omega)
    rw [rangeEq, List.flatMap_append]
    change (((_ ++ _) ++ UInt32.ofNat (first + block.length - 1) ::
      branchReferences branches').map UInt32.toNat).Perm _
    rw [List.map_append, List.map_append, List.map_cons, headEq,
      List.append_assoc]
    refine headPerm.append (List.perm_middle.trans (.cons _ ?_))
    rwa [← List.map_append]

end

/-- The branches refer into their blocks. -/
theorem Blocks.branchReferences_lt {first : ℕ}
    {branches branches' : List (Branch X (CompiledNode X))}
    {entries : List (CompiledNode X)}
    (areBlocks : Blocks first branches branches' entries)
    (bound : first + entries.length ≤ 2 ^ 32) :
    ∀ index ∈ branchReferences branches',
      first ≤ index.toNat ∧ index.toNat < first + entries.length := by
  intro index member
  have inRange := (areBlocks.references_perm bound).subset
    (List.mem_map_of_mem (List.mem_append_right _ member))
  rwa [List.mem_range'_1] at inRange

mutual

/-- The entries of a block refer to earlier ones. -/
theorem Block.references_lt {first : ℕ} {node : CompiledNode X}
    {block : List (CompiledNode X)} (isBlock : Block first node block)
    (bound : first + block.length ≤ 2 ^ 32) {position : ℕ}
    {entry : CompiledNode X} (found : block[position]? = some entry) :
    ∀ index ∈ references entry, index.toNat < first + position := by
  cases isBlock with
  | leaf isLeaf =>
    rw [List.getElem?_singleton] at found
    split_ifs at found
    rw [← Option.some.inj found, references_of_leaf isLeaf]
    exact nofun
  | @branch _ _ branches branches' _ _ entries children =>
    rw [List.length_append, List.length_singleton] at bound
    rw [List.getElem?_append] at found
    split_ifs at found with inside
    · exact Blocks.references_lt children (by omega) found
    · rw [List.getElem?_singleton] at found
      split_ifs at found with last
      rw [← Option.some.inj found]
      intro index member
      have below := (children.branchReferences_lt (by omega) index member).2
      omega

/-- A node of the blocks refers to nodes before it. -/
theorem Blocks.references_lt {first : ℕ}
    {branches branches' : List (Branch X (CompiledNode X))}
    {entries : List (CompiledNode X)}
    (areBlocks : Blocks first branches branches' entries)
    (bound : first + entries.length ≤ 2 ^ 32) {position : ℕ}
    {entry : CompiledNode X} (found : entries[position]? = some entry) :
    ∀ index ∈ references entry, index.toNat < first + position := by
  cases areBlocks with
  | nil => simp at found
  | cons head tail =>
    rw [List.length_append] at bound
    rw [List.getElem?_append] at found
    split_ifs at found with inside
    · exact Block.references_lt head (by omega) found
    · intro index member
      have below := Blocks.references_lt tail (by omega) found index member
      omega

end

end VirtualPeople.Cc
