import VirtualPeople.Cc.Labeler
import VirtualPeople.Cc.References

/-!
# Labelers from node lists

`Labeler::Build` on a list builds each node from a table of the nodes before
it, which parents empty while the list fills it.  For lists with different
indexes the table holds at each point what was built and not yet referred to,
and the list is accepted exactly when it is a tree written children first.
-/

namespace VirtualPeople.Cc

variable {X : Externals}

/-! ## Lists of nodes -/

/-- Every node comes after the nodes that it refers to. -/
def ChildrenFirst (nodes : List (CompiledNode X)) : Prop :=
  ∀ before node after, nodes = before ++ node :: after →
    ∀ index ∈ node.nodeIndexes, ∃ child ∈ before, child.index = some index

/-- The indexes that the nodes of a list refer to. -/
def listIndexes (nodes : List (CompiledNode X)) : List UInt32 :=
  nodes.flatMap CompiledNode.nodeIndexes

/-- The nodes that were built of a list, by index. -/
def resolveNodes (nodes : List (CompiledNode X)) : NodeEnv X :=
  nodes.foldl
    (fun env node =>
      match node.index, ModelNode.resolve node env with
      | some index, .ok found => Function.update env index (some found)
      | _, _ => env)
    fun _ => none

/-- The nodes of a list with their references replaced, by index. -/
def replaceNodes (nodes : List (CompiledNode X)) : ConfigEnv X :=
  nodes.foldl
    (fun configs node =>
      match node.index with
      | some index =>
        Function.update configs index (some (replaceReferences configs node))
      | none => configs)
    fun _ => none

/-- The indexes that a longer list refers to. -/
@[simp] theorem listIndexes_concat (nodes : List (CompiledNode X))
    (node : CompiledNode X) :
    listIndexes (nodes ++ [node]) = listIndexes nodes ++ node.nodeIndexes := by
  simp [listIndexes]

/-- A property of each position and what comes before it, for a longer list. -/
theorem forall_split_concat {α : Type} {P : List α → α → Prop} {init : List α}
    {last : α} :
    (∀ before element after,
        init ++ [last] = before ++ element :: after → P before element) ↔
      (∀ before element after,
        init = before ++ element :: after → P before element) ∧ P init last := by
  constructor
  · intro each
    refine ⟨fun before element after split => ?_, each init last [] rfl⟩
    exact each before element (after ++ [last]) (by simp [split])
  · rintro ⟨eachInit, atLast⟩ before element after split
    rcases List.eq_nil_or_concat after with rfl | ⟨after, other, rfl⟩
    · obtain ⟨rfl, same⟩ := List.append_inj' split rfl
      rwa [← List.singleton_inj.mp same]
    · rw [List.concat_eq_append, ← List.cons_append, ← List.append_assoc]
        at split
      exact eachInit before element after (List.append_inj' split rfl).1

/-- A longer list has its children first. -/
theorem childrenFirst_concat {init : List (CompiledNode X)}
    {last : CompiledNode X} :
    ChildrenFirst (init ++ [last]) ↔ ChildrenFirst init ∧
      ∀ index ∈ last.nodeIndexes, ∃ child ∈ init, child.index = some index :=
  forall_split_concat

/-- What the nodes of a list refer to is in the list. -/
theorem ChildrenFirst.exists_of_mem {nodes : List (CompiledNode X)}
    (childrenFirst : ChildrenFirst nodes) {index : UInt32}
    (member : index ∈ listIndexes nodes) :
    ∃ child ∈ nodes, child.index = some index := by
  obtain ⟨node, inNodes, referred⟩ := List.mem_flatMap.mp member
  obtain ⟨before, after, rfl⟩ := List.append_of_mem inNodes
  obtain ⟨child, inBefore, indexed⟩ :=
    childrenFirst before node after rfl index referred
  exact ⟨child, List.mem_append_left _ inBefore, indexed⟩

/-- Indexes differ in a longer list when they do in the list and the last node
has another one. -/
theorem distinct_concat {init : List (CompiledNode X)} {last : CompiledNode X}
    (distinct : ((init ++ [last]).filterMap CompiledNode.index).Nodup) :
    (init.filterMap CompiledNode.index).Nodup ∧
      ∀ index, last.index = some index →
        ∀ child ∈ init, child.index ≠ some index := by
  rw [List.filterMap_append, List.nodup_append] at distinct
  refine ⟨distinct.1, fun index indexed child member same => ?_⟩
  refine distinct.2.2 index (List.mem_filterMap.mpr ⟨child, member, same⟩) index
    ?_ rfl
  simp [indexed]

/-! ## One node -/

/-- A node with an index is added to the table. -/
theorem addNode_eq_ok_none_iff {root : Option (ModelNode X)}
    {node : CompiledNode X} {refs refs' : NodeRefs X} :
    Labeler.addNode root node refs = .ok none refs' ↔
      root = none ∧ ∃ index built rest, node.index = some index ∧
        ModelNode.build node refs = .ok built rest ∧ index ∉ rest ∧
        refs' = rest.insert index built := by
  unfold Labeler.addNode
  cases root with
  | some root => simp
  | none =>
    cases node.index with
    | none =>
      simp only [Step.run_bind_eq_ok_iff, Step.run_pure,
        EStateM.Result.ok.injEq, reduceCtorEq, false_and, and_false,
        exists_false]
    | some index =>
      simp only [Step.run_bind_eq_ok_iff, Step.run_get, Option.some_inj,
        EStateM.Result.ok.injEq, true_and]
      constructor
      · rintro ⟨built, rest, buildRun, _, _, ⟨rfl, rfl⟩, added⟩
        split_ifs at added with known
        · contradiction
        · injection added with _ sameRefs
          exact ⟨index, built, _, rfl, buildRun, known, sameRefs.symm⟩
      · rintro ⟨_, built, rest, rfl, buildRun, fresh, rfl⟩
        refine ⟨built, rest, buildRun, _, _, ⟨rfl, rfl⟩, ?_⟩
        rw [if_neg fresh]
        rfl

/-- A node without an index becomes the root. -/
theorem addNode_eq_ok_some_iff {root : Option (ModelNode X)}
    {node : CompiledNode X} {refs refs' : NodeRefs X} {built : ModelNode X} :
    Labeler.addNode root node refs = .ok (some built) refs' ↔
      root = none ∧ node.index = none ∧
        ModelNode.build node refs = .ok built refs' := by
  unfold Labeler.addNode
  cases root with
  | some root => simp
  | none =>
    cases node.index with
    | none =>
      simp only [Step.run_bind_eq_ok_iff, Step.run_pure,
        EStateM.Result.ok.injEq, Option.some_inj, true_and]
      constructor
      · rintro ⟨_, _, buildRun, rfl, rfl⟩
        exact buildRun
      · exact fun buildRun => ⟨built, refs', buildRun, rfl, rfl⟩
    | some index =>
      simp only [Step.run_bind_eq_ok_iff, Step.run_get,
        EStateM.Result.ok.injEq, reduceCtorEq, false_and, and_false, iff_false]
      rintro ⟨node, rest, -, _, _, ⟨rfl, rfl⟩, added⟩
      split_ifs at added
      · contradiction
      · injection added with impossible
        contradiction

/-- Adding a longer list adds its last node last. -/
theorem foldlM_addNode_concat {init : List (CompiledNode X)}
    {last : CompiledNode X} {found : Option (ModelNode X)}
    {refs refs' : NodeRefs X} :
    (init ++ [last]).foldlM Labeler.addNode none refs = .ok found refs' ↔
      ∃ root middle,
        init.foldlM Labeler.addNode none refs = .ok root middle ∧
          Labeler.addNode root last middle = .ok found refs' := by
  rw [List.foldlM_append, Step.run_bind_eq_ok_iff]
  simp only [List.foldlM_cons, List.foldlM_nil, bind_pure]

/-! ## The table of nodes -/

/-- The next node refers to earlier nodes, to which no other node refers. -/
structure Follows (nodes : List (CompiledNode X)) (node : CompiledNode X) :
    Prop where
  earlier : ∀ index ∈ node.nodeIndexes,
    ∃ child ∈ nodes, child.index = some index
  once : (listIndexes nodes ++ node.nodeIndexes).Nodup

/-- The table holds the nodes of a list that were not referred to. -/
structure IsTableOf (nodes : List (CompiledNode X)) (refs : NodeRefs X) :
    Prop where
  known : ∀ index, (∃ found, resolveNodes nodes index = some found) ↔
    ∃ node ∈ nodes, node.index = some index
  lookup : ∀ index, refs.lookup index =
    if index ∈ listIndexes nodes then none else resolveNodes nodes index

/-- A node is built when it follows and is resolved by the nodes so far. -/
theorem IsTableOf.build_iff {nodes : List (CompiledNode X)}
    {refs : NodeRefs X} (table : IsTableOf nodes refs)
    (once : (listIndexes nodes).Nodup) {node : CompiledNode X}
    {built : ModelNode X} {rest : NodeRefs X} :
    ModelNode.build node refs = .ok built rest ↔ Follows nodes node ∧
      ModelNode.resolve node (resolveNodes nodes) = .ok built ∧
      rest = eraseAll refs node.nodeIndexes := by
  rw [buildsByLookup]
  constructor
  · rintro ⟨nodup, resolved, rfl⟩
    have inTable : ∀ index ∈ node.nodeIndexes, index ∉ listIndexes nodes ∧
        ∃ found, resolveNodes nodes index = some found := by
      intro index referred
      obtain ⟨found, foundEq⟩ := exists_of_resolve resolved index referred
      rw [table.lookup] at foundEq
      split_ifs at foundEq with taken
      exact ⟨taken, found, foundEq⟩
    refine ⟨⟨fun index referred =>
        (table.known index).mp (inTable index referred).2, ?_⟩, ?_, rfl⟩
    · rw [List.nodup_append]
      refine ⟨once, nodup, ?_⟩
      rintro index taken _ referred rfl
      exact (inTable index referred).1 taken
    · rw [← resolved]
      refine resolve_congr node fun index referred => ?_
      rw [table.lookup, if_neg (inTable index referred).1]
  · rintro ⟨follows, resolved, rfl⟩
    have ⟨_, nodup, disjoint⟩ := List.nodup_append.mp follows.once
    refine ⟨nodup, ?_, rfl⟩
    rw [← resolved]
    refine resolve_congr node fun index referred => ?_
    rw [table.lookup, if_neg fun taken => disjoint index taken index referred rfl]

/-- The nodes before the root: they have indexes, follow one another, and each
of them can be built. -/
structure AreIndexed (nodes : List (CompiledNode X)) : Prop where
  indexed : ∀ node ∈ nodes, ∃ index, node.index = some index
  childrenFirst : ChildrenFirst nodes
  once : (listIndexes nodes).Nodup
  resolved : ∀ before node after, nodes = before ++ node :: after →
    ∃ built, ModelNode.resolve node (resolveNodes before) = .ok built

@[simp] theorem areIndexed_nil : AreIndexed ([] : List (CompiledNode X)) where
  indexed := nofun
  childrenFirst := by simp [ChildrenFirst]
  once := .nil
  resolved := by simp

/-- A longer list is indexed when its last node resolves. -/
theorem areIndexed_concat {init : List (CompiledNode X)}
    {last : CompiledNode X} :
    AreIndexed (init ++ [last]) ↔ AreIndexed init ∧
      (∃ index, last.index = some index) ∧ Follows init last ∧
        ∃ built, ModelNode.resolve last (resolveNodes init) = .ok built := by
  constructor
  · rintro ⟨indexed, childrenFirst, once, resolved⟩
    rw [childrenFirst_concat] at childrenFirst
    rw [listIndexes_concat] at once
    rw [forall_split_concat (P := fun before node => ∃ built,
      ModelNode.resolve node (resolveNodes before) = .ok built)] at resolved
    exact ⟨⟨fun node member => indexed node (List.mem_append_left _ member),
        childrenFirst.1, (List.nodup_append.mp once).1, resolved.1⟩,
      indexed last (by simp), ⟨childrenFirst.2, once⟩, resolved.2⟩
  · rintro ⟨init, indexed, follows, resolved⟩
    refine ⟨?_, childrenFirst_concat.mpr ⟨init.childrenFirst, follows.earlier⟩,
      ?_, forall_split_concat.mpr ⟨init.resolved, resolved⟩⟩
    · intro node member
      rcases List.mem_append.mp member with inInit | isLast
      · exact init.indexed node inInit
      · rwa [List.mem_singleton.mp isLast]
    · rw [listIndexes_concat]
      exact follows.once

/-- The nodes of a longer list resolve as before, and the last one to what it is
built to. -/
theorem resolveNodes_concat {init : List (CompiledNode X)}
    {last : CompiledNode X} {index : UInt32} {built : ModelNode X}
    (indexed : last.index = some index)
    (resolved : ModelNode.resolve last (resolveNodes init) = .ok built) :
    resolveNodes (init ++ [last]) =
      Function.update (resolveNodes init) index (some built) := by
  unfold resolveNodes at resolved ⊢
  rw [List.foldl_append, List.foldl_cons, List.foldl_nil, indexed, resolved]

/-- Nothing in or before a node refers to its own index. -/
theorem Follows.notMem {init : List (CompiledNode X)} {last : CompiledNode X}
    (follows : Follows init last) (childrenFirst : ChildrenFirst init)
    {index : UInt32} (fresh : ∀ child ∈ init, child.index ≠ some index) :
    index ∉ listIndexes init ++ last.nodeIndexes := by
  intro member
  have ⟨child, inInit, same⟩ : ∃ child ∈ init, child.index = some index := by
    rcases List.mem_append.mp member with inList | inLast
    · exact childrenFirst.exists_of_mem inList
    · exact follows.earlier index inLast
  exact fresh child inInit same

/-- Adding a node that follows gives the table of the longer list. -/
theorem IsTableOf.insert {init : List (CompiledNode X)}
    {refs : NodeRefs X} (table : IsTableOf init refs)
    (childrenFirst : ChildrenFirst init) {last : CompiledNode X}
    (follows : Follows init last) {index : UInt32}
    (indexed : last.index = some index)
    (fresh : ∀ child ∈ init, child.index ≠ some index) {built : ModelNode X}
    (resolved : ModelNode.resolve last (resolveNodes init) = .ok built) :
    IsTableOf (init ++ [last])
      ((eraseAll refs last.nodeIndexes).insert index built) where
  known other := by
    rw [resolveNodes_concat indexed resolved]
    by_cases same : other = index
    · subst same
      simp [indexed]
    · rw [Function.update_of_ne same, table.known]
      constructor
      · rintro ⟨node, member, nodeIndexed⟩
        exact ⟨node, List.mem_append_left _ member, nodeIndexed⟩
      · rintro ⟨node, member, nodeIndexed⟩
        rcases List.mem_append.mp member with inInit | isLast
        · exact ⟨node, inInit, nodeIndexed⟩
        · rw [List.mem_singleton.mp isLast, indexed] at nodeIndexed
          exact absurd (Option.some.inj nodeIndexed).symm same
  lookup other := by
    rw [resolveNodes_concat indexed resolved, listIndexes_concat]
    by_cases same : other = index
    · subst same
      rw [if_neg (follows.notMem childrenFirst fresh), AList.lookup_insert,
        Function.update_self]
    · rw [AList.lookup_insert_ne same, Function.update_of_ne same,
        lookup_eraseAll, table.lookup]
      simp only [List.mem_append]
      split_ifs <;> grind

/-- The loop adds all the nodes exactly when they are indexed as they should
be, and leaves their table. -/
theorem foldlM_addNode_spec {nodes : List (CompiledNode X)}
    (distinct : (nodes.filterMap CompiledNode.index).Nodup) :
    (∀ refs, nodes.foldlM Labeler.addNode none ∅ = .ok none refs →
      AreIndexed nodes ∧ IsTableOf nodes refs) ∧
    (AreIndexed nodes →
      ∃ refs, nodes.foldlM Labeler.addNode none ∅ = .ok none refs) := by
  induction nodes using List.reverseRecOn with
  | nil =>
    refine ⟨fun refs run => ⟨areIndexed_nil, ?_⟩, fun _ => ⟨∅, rfl⟩⟩
    injection run with _ same
    rw [← same]
    exact ⟨by simp [resolveNodes], fun index => by simp [resolveNodes]⟩
  | append_singleton init last inductionHypothesis =>
    obtain ⟨distinctInit, fresh⟩ := distinct_concat distinct
    obtain ⟨adds, added⟩ := inductionHypothesis distinctInit
    constructor
    · intro refs run
      obtain ⟨root, middle, initRun, lastRun⟩ := foldlM_addNode_concat.mp run
      obtain ⟨rfl, index, built, rest, indexed, buildRun, -, rfl⟩ :=
        addNode_eq_ok_none_iff.mp lastRun
      obtain ⟨areIndexed, table⟩ := adds middle initRun
      obtain ⟨follows, resolved, rfl⟩ :=
        (table.build_iff areIndexed.once).mp buildRun
      exact ⟨areIndexed_concat.mpr
          ⟨areIndexed, ⟨index, indexed⟩, follows, built, resolved⟩,
        table.insert areIndexed.childrenFirst follows indexed
          (fresh index indexed) resolved⟩
    · intro allIndexed
      obtain ⟨areIndexed, ⟨index, indexed⟩, follows, built, resolved⟩ :=
        areIndexed_concat.mp allIndexed
      obtain ⟨middle, initRun⟩ := added areIndexed
      obtain ⟨-, table⟩ := adds middle initRun
      have buildRun := (table.build_iff areIndexed.once).mpr
        ⟨follows, resolved, rfl⟩
      refine ⟨_, foldlM_addNode_concat.mpr ⟨none, middle, initRun,
        addNode_eq_ok_none_iff.mpr
          ⟨rfl, index, built, _, indexed, buildRun, ?_, rfl⟩⟩⟩
      rw [← AList.lookup_isSome, lookup_eraseAll, table.lookup]
      have absent : ¬∃ found, resolveNodes init index = some found := by
        rw [table.known]
        rintro ⟨child, member, same⟩
        exact fresh index indexed child member same
      cases resolvedEq : resolveNodes init index with
      | none => simp
      | some found => exact absurd ⟨found, resolvedEq⟩ absent

/-! ## The root -/

/-- A table is empty when it has nothing to look up. -/
theorem isEmpty_entries_iff {refs : NodeRefs X} :
    refs.entries.isEmpty ↔ ∀ index, refs.lookup index = none := by
  simp only [List.isEmpty_iff, AList.lookup_eq_none]
  constructor
  · intro empty index member
    rw [AList.mem_keys, AList.keys, empty] at member
    exact absurd member List.not_mem_nil
  · intro absent
    rw [List.eq_nil_iff_forall_not_mem]
    intro entry member
    exact absent entry.1 (List.mem_map.mpr ⟨entry, member, rfl⟩)

/-- Every node before the root has a parent in the list. -/
def AllReferred (init : List (CompiledNode X)) (last : CompiledNode X) : Prop :=
  ∀ node ∈ init, ∀ index, node.index = some index →
    index ∈ listIndexes init ++ last.nodeIndexes

/-- When it leaves nothing behind, the node that is taken is the only one. -/
theorem takeRoot_none_eq_ok_iff {refs rest : NodeRefs X} {root : ModelNode X}
    (empty : ∀ index, rest.lookup index = none) :
    Labeler.takeRoot none refs = .ok root rest ↔
      ∃ index, refs.lookup index = some root ∧ rest = refs.erase index := by
  unfold Labeler.takeRoot
  simp only
  rw [Step.run_bind_of_ok _ (Step.run_get refs)]
  cases entriesEq : refs.entries with
  | nil =>
    have noNode := isEmpty_entries_iff.mp (List.isEmpty_iff.mpr entriesEq)
    simp [noNode]
  | cons entry entries =>
    obtain ⟨first, node⟩ := entry
    have found : refs.lookup first = some node := by
      rw [AList.lookup, entriesEq]
      exact List.dlookup_cons_eq _ _ _
    constructor
    · intro run
      injection run with sameRoot sameRefs
      exact ⟨first, by rw [found, sameRoot], sameRefs.symm⟩
    · rintro ⟨index, lookupEq, rfl⟩
      have same : first = index := by
        by_contra different
        have absent := empty first
        rw [AList.lookup_erase_ne different, found] at absent
        contradiction
      rw [same, lookupEq, Option.some_inj] at found
      rw [same, found]
      rfl

/-- After the loop, a root without an index is found and an indexed one is left
in the table; both must be the only node that is left. -/
theorem buildNodes_eq_ok_iff {nodes : List (CompiledNode X)}
    {root : ModelNode X} {rest : NodeRefs X} :
    Labeler.buildNodes nodes ∅ = .ok root rest ↔
      (∀ index, rest.lookup index = none) ∧
        (nodes.foldlM Labeler.addNode none ∅ = .ok (some root) rest ∨
          ∃ refs, nodes.foldlM Labeler.addNode none ∅ = .ok none refs ∧
            ∃ index, refs.lookup index = some root ∧
              rest = refs.erase index) := by
  unfold Labeler.buildNodes
  simp only [Step.run_bind_eq_ok_iff, Step.run_get, EStateM.Result.ok.injEq]
  constructor
  · rintro ⟨found, refs, folded, taken, middle, takeRun, _, _, ⟨rfl, rfl⟩, final⟩
    split_ifs at final with empty
    · injection final with sameRoot sameRefs
      subst sameRoot sameRefs
      rw [isEmpty_entries_iff] at empty
      refine ⟨empty, ?_⟩
      cases found with
      | some root =>
        injection takeRun with sameRoot sameRefs
        rw [← sameRoot, ← sameRefs]
        exact .inl folded
      | none =>
        exact .inr ⟨refs, folded, (takeRoot_none_eq_ok_iff empty).mp takeRun⟩
    · contradiction
  · rintro ⟨empty, folded | ⟨refs, folded, only⟩⟩
    · refine ⟨some root, rest, folded, root, rest, rfl, rest, rest, ⟨rfl, rfl⟩, ?_⟩
      rw [if_pos (isEmpty_entries_iff.mpr empty)]
      rfl
    · refine ⟨none, refs, folded, root, rest,
        (takeRoot_none_eq_ok_iff empty).mpr only, rest, rest, ⟨rfl, rfl⟩, ?_⟩
      rw [if_pos (isEmpty_entries_iff.mpr empty)]
      rfl

/-- The labeler has the root that the nodes are built to. -/
theorem buildFromList_eq_ok_iff {nodes : List (CompiledNode X)}
    {root : ModelNode X} :
    Labeler.buildFromList nodes = .ok ⟨root⟩ ↔
      ∃ rest, Labeler.buildNodes nodes ∅ = .ok root rest := by
  unfold Labeler.buildFromList
  simp only [bind_eq_ok_iff, Builder.alone_eq_ok_iff]
  constructor
  · rintro ⟨built, run, same⟩
    injection Except.ok.inj same with sameRoot
    rwa [← sameRoot]
  · exact fun run => ⟨root, run, rfl⟩

/-- What the table holds after some nodes that were added. -/
theorem IsTableOf.lookup_eraseAll_eq_none_iff {init : List (CompiledNode X)}
    {refs : NodeRefs X} (table : IsTableOf init refs) {last : CompiledNode X} :
    (∀ index, (eraseAll refs last.nodeIndexes).lookup index = none) ↔
      AllReferred init last := by
  have eraseEq (index : UInt32) :
      (eraseAll refs last.nodeIndexes).lookup index =
        if index ∈ listIndexes init ++ last.nodeIndexes then none
        else resolveNodes init index := by
    rw [lookup_eraseAll, table.lookup]
    simp only [List.mem_append]
    split_ifs <;> grind
  simp only [eraseEq]
  constructor
  · intro empty node member index indexed
    obtain ⟨found, foundEq⟩ := (table.known index).mpr ⟨node, member, indexed⟩
    by_contra absent
    have gone := empty index
    rw [if_neg absent, foundEq] at gone
    contradiction
  · intro allReferred index
    split_ifs with referred
    · rfl
    · cases resolvedEq : resolveNodes init index with
      | none => rfl
      | some found =>
        obtain ⟨node, member, indexed⟩ := (table.known index).mp
          ⟨found, resolvedEq⟩
        exact absurd (allReferred node member index indexed) referred

/-- When one node is left after an insertion, it is the one inserted. -/
theorem only_inserted {refs : NodeRefs X} {index other : UInt32}
    {node found : ModelNode X} (absent : index ∉ refs)
    (lookupEq : (refs.insert index node).lookup other = some found)
    (empty : ∀ key, ((refs.insert index node).erase other).lookup key = none) :
    other = index ∧ found = node ∧ ∀ key, refs.lookup key = none := by
  have same : other = index := by
    by_contra different
    have gone := empty index
    rw [AList.lookup_erase_ne (Ne.symm different), AList.lookup_insert] at gone
    contradiction
  subst same
  rw [AList.lookup_insert, Option.some_inj] at lookupEq
  rw [erase_insert_of_notMem absent] at empty
  exact ⟨rfl, lookupEq.symm, empty⟩

/-- A list is built exactly when its nodes follow one another, all but the last
one have a parent, and each of them can be built. -/
theorem buildFromList_concat_iff {init : List (CompiledNode X)}
    {last : CompiledNode X}
    (distinct : ((init ++ [last]).filterMap CompiledNode.index).Nodup)
    {root : ModelNode X} :
    Labeler.buildFromList (init ++ [last]) = .ok ⟨root⟩ ↔
      AreIndexed init ∧ Follows init last ∧ AllReferred init last ∧
        ModelNode.resolve last (resolveNodes init) = .ok root := by
  obtain ⟨distinctInit, fresh⟩ := distinct_concat distinct
  obtain ⟨adds, added⟩ := foldlM_addNode_spec distinctInit
  rw [buildFromList_eq_ok_iff]
  simp only [buildNodes_eq_ok_iff, foldlM_addNode_concat,
    addNode_eq_ok_some_iff, addNode_eq_ok_none_iff]
  constructor
  · rintro ⟨rest, empty, ⟨found, middle, initRun, rfl, -, buildRun⟩ |
      ⟨refs, ⟨found, middle, initRun, rfl, index, built, rest, -, buildRun,
        absent, rfl⟩, other, lookupEq, rfl⟩⟩
    · obtain ⟨areIndexed, table⟩ := adds middle initRun
      obtain ⟨follows, resolved, rfl⟩ :=
        (table.build_iff areIndexed.once).mp buildRun
      exact ⟨areIndexed, follows,
        table.lookup_eraseAll_eq_none_iff.mp empty, resolved⟩
    · obtain ⟨areIndexed, table⟩ := adds middle initRun
      obtain ⟨follows, resolved, rfl⟩ :=
        (table.build_iff areIndexed.once).mp buildRun
      obtain ⟨rfl, rfl, restEmpty⟩ := only_inserted absent lookupEq empty
      exact ⟨areIndexed, follows,
        table.lookup_eraseAll_eq_none_iff.mp restEmpty, resolved⟩
  · rintro ⟨areIndexed, follows, allReferred, resolved⟩
    obtain ⟨middle, initRun⟩ := added areIndexed
    obtain ⟨-, table⟩ := adds middle initRun
    have buildRun := (table.build_iff areIndexed.once).mpr
      ⟨follows, resolved, rfl⟩
    have restEmpty := table.lookup_eraseAll_eq_none_iff.mpr allReferred
    cases indexed : last.index with
    | none =>
      exact ⟨_, restEmpty, .inl ⟨none, middle, initRun, rfl, rfl, buildRun⟩⟩
    | some index =>
      have absent : index ∉ eraseAll middle last.nodeIndexes :=
        AList.lookup_eq_none.mp (restEmpty index)
      refine ⟨_, ?_, .inr ⟨_, ⟨none, middle, initRun, rfl, index, root, _, rfl,
        buildRun, absent, rfl⟩, index, AList.lookup_insert _, rfl⟩⟩
      rwa [erase_insert_of_notMem absent]

end VirtualPeople.Cc
