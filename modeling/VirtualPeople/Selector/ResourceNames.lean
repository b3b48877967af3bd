import VirtualPeople.FirstOccurrence
import VirtualPeople.Selector.VidModelSelector

/-!
# Resource names of model lines and rollouts

Building a selector compares the model line ids of two names, which it finds by
searching for markers.  The text in front of the first marker and all that
follows the id play no part, so names of other model lines are accepted.
-/

namespace VirtualPeople.Selector

/-! ## What a search finds -/

theorem findMarker_eq_some_iff {marker text found : List Char} :
    findMarker marker text = some found ↔
      ∃ before, IsFirstOccurrence marker before text ∧
        text = before ++ found := by
  induction text with
  | nil =>
    unfold findMarker
    split_ifs with isNil
    · subst isNil
      constructor
      · intro same
        exact ⟨[], .nil (List.prefix_refl []), Option.some.inj same⟩
      · rintro ⟨before, -, split⟩
        rw [(List.append_eq_nil_iff.mp split.symm).2]
    · refine iff_of_false nofun fun ⟨_, first, _⟩ => isNil ?_
      exact (List.append_eq_nil_iff.mp (List.prefix_nil.mp first.occurs)).2
  | cons letter rest inductionHypothesis =>
    rw [findMarker]
    split_ifs with here
    · have starts := List.isPrefixOf_iff_prefix.mp here
      constructor
      · intro same
        exact ⟨[], .nil starts, Option.some.inj same⟩
      · rintro ⟨before, first, split⟩
        rw [split, ← (IsFirstOccurrence.nil starts).unique first,
          List.nil_append]
    · have notHere : ¬marker <+: letter :: rest := fun starts =>
        here (List.isPrefixOf_iff_prefix.mpr starts)
      rw [inductionHypothesis]
      constructor
      · rintro ⟨before, first, rfl⟩
        exact ⟨letter :: before, first.cons notHere, rfl⟩
      · rintro ⟨before, first, split⟩
        cases before with
        | nil => exact absurd first.occurs notHere
        | cons _ before =>
          obtain ⟨rfl, rfl⟩ := List.cons.inj split
          exact ⟨before, first.tail, rfl⟩

/-! ## The parts of a name -/

/-- What stands before the id of a model line. -/
def modelLineMarker : List Char :=
  "modelLines/".toList

/-- What stands between the ids of a model line and of a rollout. -/
def modelRolloutMarker : List Char :=
  "/modelRollouts/".toList

/-- The text in front of the first `modelLines/`. -/
def parentPrefix (name : String) : List Char :=
  match findMarker modelLineMarker name.toList with
  | some found => name.toList.take (name.toList.length - found.length)
  | none => name.toList

/-- The text behind the first `modelLines/`. -/
def afterMarker (name : String) : List Char :=
  match findMarker modelLineMarker name.toList with
  | some found => found.drop modelLineMarker.length
  | none => []

/-- The text that follows the id: nothing, or the rest of the name from a
`/modelRollouts/` on. -/
def afterId (name : String) : List Char :=
  (findMarker modelRolloutMarker (afterMarker name)).getD []

section Parts

variable {name : String}

/-- The id ends where the text that follows it starts. -/
theorem toList_readModelLine (name : String) :
    (readModelLine name).toList =
      (afterMarker name).take
        ((afterMarker name).length - (afterId name).length) := by
  have readEq : readModelLine name =
      match findMarker modelLineMarker name.toList with
      | some found =>
        let start := found.drop modelLineMarker.length
        match findMarker modelRolloutMarker start with
        | some tail => String.ofList (start.take (start.length - tail.length))
        | none => String.ofList start
      | none => "" := rfl
  unfold afterId afterMarker
  rw [readEq]
  cases findMarker modelLineMarker name.toList with
  | none => simp
  | some found =>
    dsimp only
    cases findMarker modelRolloutMarker (found.drop modelLineMarker.length) with
    | none => simp
    | some tail => simp

theorem toList_readModelLine_append (name : String) :
    (readModelLine name).toList ++ afterId name = afterMarker name := by
  rw [toList_readModelLine, afterId]
  cases found : findMarker modelRolloutMarker (afterMarker name) with
  | none => simp
  | some tail =>
    obtain ⟨before, -, split⟩ := findMarker_eq_some_iff.mp found
    simp [split]

theorem parentPrefix_of_first {before after : List Char}
    (first : IsFirstOccurrence modelLineMarker before name.toList)
    (split : name.toList = before ++ (modelLineMarker ++ after)) :
    parentPrefix name = before ∧ afterMarker name = after := by
  have found := findMarker_eq_some_iff.mpr ⟨before, first, split⟩
  simp only [parentPrefix, afterMarker, found]
  simp [split]

/-- A name with an id has the marker, right behind the parent prefix. -/
theorem parentPrefix_spec (hasId : readModelLine name ≠ "") :
    IsFirstOccurrence modelLineMarker (parentPrefix name) name.toList ∧
      name.toList =
        parentPrefix name ++ (modelLineMarker ++ afterMarker name) := by
  cases found : findMarker modelLineMarker name.toList with
  | none =>
    refine absurd ?_ hasId
    apply String.toList_inj.mp
    simp [toList_readModelLine, afterMarker, found]
  | some start =>
    obtain ⟨before, first, split⟩ := findMarker_eq_some_iff.mp found
    obtain ⟨after, startEq⟩ : modelLineMarker <+: start := by
      have occurs := first.occurs
      rwa [split, List.prefix_append_right_inj] at occurs
    rw [← startEq] at split
    obtain ⟨prefixEq, afterEq⟩ := parentPrefix_of_first first split
    rw [prefixEq, afterEq]
    exact ⟨first, split⟩

/-- A name with an id is its parts. -/
theorem toList_eq_parts (hasId : readModelLine name ≠ "") :
    name.toList = parentPrefix name ++
      (modelLineMarker ++ ((readModelLine name).toList ++ afterId name)) := by
  rw [toList_readModelLine_append]
  exact (parentPrefix_spec hasId).2

end Parts

/-! ## Rollouts of a model line -/

/-- The name of a rollout right below a model line. -/
def IsParentedBy (modelLineName name : String) : Prop :=
  ∃ id : String, '/' ∉ id.toList ∧
    name = modelLineName ++ "/modelRollouts/" ++ id

/-- What follows the id in the names of the rollouts of a model line, up to
their own ids. -/
def rolloutPrefix (modelLineName : String) : List Char :=
  afterId modelLineName ++ modelRolloutMarker

/-- A name that is not one of a rollout of the model line, although it may have
the same model line id. -/
inductive IsForeign (modelLineName name : String) : Prop
  /-- The id stands below another model provider, another model suite or none
  of them. -/
  | otherParent
    (differs : parentPrefix name ≠ parentPrefix modelLineName)
  /-- What follows the id is not the part of a rollout. -/
  | noRollout (missing : ¬rolloutPrefix modelLineName <+: afterId name)
  /-- The part of the rollout is not the last one. -/
  | moreSegments
    (slash : '/' ∈ (afterId name).drop (rolloutPrefix modelLineName).length)

section Rollouts

variable {modelLineName name : String}

theorem isParentedBy_iff_toList :
    IsParentedBy modelLineName name ↔
      ∃ id, '/' ∉ id ∧
        name.toList = modelLineName.toList ++ (modelRolloutMarker ++ id) := by
  constructor
  · rintro ⟨id, noSlash, rfl⟩
    refine ⟨id.toList, noSlash, ?_⟩
    rw [String.toList_append, String.toList_append, List.append_assoc]
    rfl
  · rintro ⟨id, noSlash, split⟩
    refine ⟨String.ofList id, by simpa using noSlash, ?_⟩
    apply String.toList_inj.mp
    rw [split, String.toList_append, String.toList_append, List.append_assoc]
    change _ = _ ++ (modelRolloutMarker ++ (String.ofList id).toList)
    rw [String.toList_ofList]

instance : Decidable (IsParentedBy modelLineName name) :=
  let parent := modelLineName.toList ++ modelRolloutMarker
  decidable_of_iff
    (parent <+: name.toList ∧ '/' ∉ name.toList.drop parent.length) <| by
    rw [isParentedBy_iff_toList]
    constructor
    · rintro ⟨⟨id, split⟩, noSlash⟩
      rw [← split, List.drop_left] at noSlash
      exact ⟨id, noSlash, by rw [← split, List.append_assoc]⟩
    · rintro ⟨id, noSlash, split⟩
      rw [split, ← List.append_assoc, List.drop_left]
      exact ⟨List.prefix_append _ id, noSlash⟩

/-- The marker comes first in the name of a rollout where it does in that of
its model line. -/
theorem parentPrefix_of_isParentedBy (hasId : readModelLine modelLineName ≠ "")
    {more : List Char} (split : name.toList = modelLineName.toList ++ more) :
    parentPrefix name = parentPrefix modelLineName ∧
      afterMarker name = afterMarker modelLineName ++ more := by
  obtain ⟨first, nameEq⟩ := parentPrefix_spec hasId
  refine parentPrefix_of_first (split ▸ first.append more) ?_
  rw [split, nameEq]
  simp only [List.append_assoc]

/-- Among the names with the id of the model line exactly those that are not
foreign are names of its rollouts. -/
theorem isParentedBy_iff (hasId : readModelLine modelLineName ≠ "")
    (sameId : readModelLine name = readModelLine modelLineName) :
    IsParentedBy modelLineName name ↔ ¬IsForeign modelLineName name := by
  rw [isParentedBy_iff_toList]
  constructor
  · rintro ⟨id, noSlash, split⟩
    obtain ⟨prefixEq, afterEq⟩ := parentPrefix_of_isParentedBy hasId split
    have restEq : afterId name = rolloutPrefix modelLineName ++ id := by
      rw [← toList_readModelLine_append, ← toList_readModelLine_append, sameId,
        List.append_assoc] at afterEq
      rw [List.append_cancel_left afterEq, rolloutPrefix, List.append_assoc]
    rintro (differs | missing | slash)
    · exact differs prefixEq
    · exact missing ⟨id, restEq.symm⟩
    · rw [restEq, List.drop_left] at slash
      exact noSlash slash
  · intro notForeign
    obtain ⟨id, restEq⟩ : rolloutPrefix modelLineName <+: afterId name :=
      not_not.mp fun missing => notForeign (.noRollout missing)
    have prefixEq : parentPrefix name = parentPrefix modelLineName :=
      not_not.mp fun differs => notForeign (.otherParent differs)
    refine ⟨id, fun slash => notForeign (.moreSegments ?_), ?_⟩
    · rwa [← restEq, List.drop_left]
    · rw [toList_eq_parts (sameId ▸ hasId), toList_eq_parts hasId, prefixEq,
        sameId, ← restEq, rolloutPrefix]
      simp only [List.append_assoc]

theorem toList_readModelLine_of_first {id : List Char}
    (first : IsFirstOccurrence modelRolloutMarker id (afterMarker name)) :
    (readModelLine name).toList = id := by
  obtain ⟨more, split⟩ : id <+: afterMarker name :=
    (List.prefix_append id _).trans first.occurs
  have found := findMarker_eq_some_iff.mpr ⟨id, first, split.symm⟩
  have idEq := toList_readModelLine_append name
  rw [afterId, found, Option.getD_some, ← split] at idEq
  exact List.append_cancel_right idEq

/-- With no slash in its own id a model line is found in its rollouts. -/
theorem readModelLine_of_isParentedBy
    (hasId : readModelLine modelLineName ≠ "")
    (noSlash : '/' ∉ (readModelLine modelLineName).toList)
    (parented : IsParentedBy modelLineName name) :
    readModelLine name = readModelLine modelLineName := by
  obtain ⟨id, -, split⟩ := isParentedBy_iff_toList.mp parented
  have afterEq := (parentPrefix_of_isParentedBy hasId split).2
  apply String.toList_inj.mp
  apply toList_readModelLine_of_first
  rw [afterEq]
  cases found : findMarker modelRolloutMarker (afterMarker modelLineName) with
  | none =>
    have idEq := toList_readModelLine_append modelLineName
    rw [afterId, found, Option.getD_none, List.append_nil] at idEq
    rw [← idEq, ← List.append_assoc]
    exact .of_notMem noSlash id
  | some tail =>
    obtain ⟨before, first, -⟩ := findMarker_eq_some_iff.mp found
    rw [toList_readModelLine_of_first first]
    exact first.append _

end Rollouts

/-! ## What building accepts -/

namespace VidModelSelector

theorem succeeds_build_iff {modelLine : ModelLine}
    {modelRollouts : List ModelRollout} :
    Succeeds (build modelLine modelRollouts) ↔
      readModelLine modelLine.name ≠ "" ∧
        ∀ modelRollout ∈ modelRollouts,
          readModelLine modelRollout.name = readModelLine modelLine.name := by
  unfold build
  simp

/-- Nothing but rollouts of the model line is accepted exactly when the list is
refused or no name in it is foreign. -/
theorem build_accepts_only_parented_iff (modelLine : ModelLine)
    (modelRollouts : List ModelRollout) :
    (Succeeds (build modelLine modelRollouts) →
      ∀ modelRollout ∈ modelRollouts,
        IsParentedBy modelLine.name modelRollout.name) ↔
      readModelLine modelLine.name = "" ∨
        (∃ modelRollout ∈ modelRollouts,
          readModelLine modelRollout.name ≠ readModelLine modelLine.name) ∨
        ∀ modelRollout ∈ modelRollouts,
          ¬IsForeign modelLine.name modelRollout.name := by
  rw [succeeds_build_iff]
  constructor
  · intro onlyParented
    by_cases hasId : readModelLine modelLine.name = ""
    · exact .inl hasId
    by_cases sameIds : ∀ modelRollout ∈ modelRollouts,
        readModelLine modelRollout.name = readModelLine modelLine.name
    · refine .inr (.inr fun modelRollout member => ?_)
      exact (isParentedBy_iff hasId (sameIds modelRollout member)).mp
        (onlyParented ⟨hasId, sameIds⟩ modelRollout member)
    · exact .inr (.inl (by simpa using sameIds))
  · rintro (noId | ⟨other, member, differs⟩ | noneForeign) ⟨hasId, sameIds⟩
    · exact absurd noId hasId
    · exact absurd (sameIds other member) differs
    · intro modelRollout member
      exact (isParentedBy_iff hasId (sameIds modelRollout member)).mpr
        (noneForeign modelRollout member)

/-- The rollouts of a model line with a plain id are accepted. -/
theorem succeeds_build_of_parented {modelLine : ModelLine}
    {modelRollouts : List ModelRollout}
    (hasId : readModelLine modelLine.name ≠ "")
    (noSlash : '/' ∉ (readModelLine modelLine.name).toList)
    (parented : ∀ modelRollout ∈ modelRollouts,
      IsParentedBy modelLine.name modelRollout.name) :
    Succeeds (build modelLine modelRollouts) :=
  succeeds_build_iff.mpr ⟨hasId, fun modelRollout member =>
    readModelLine_of_isParentedBy hasId noSlash (parented modelRollout member)⟩

/-- A rollout of a model line of the same id below other parents, a model line
in the place of a rollout, and a resource below a rollout are accepted. -/
theorem build_accepts_foreign :
    let modelLine : ModelLine :=
      ⟨"modelProviders/p1/modelSuites/s1/modelLines/l1", none, none⟩
    ∀ name ∈ [
      "modelProviders/p2/modelSuites/s2/modelLines/l1/modelRollouts/r1",
      "modelLines/l1",
      "modelProviders/p1/modelSuites/s1/modelLines/l1/modelRollouts/r1/extra"],
      Succeeds (build modelLine [⟨name, .notSet, none, ""⟩]) ∧
        ¬IsParentedBy modelLine.name name := by
  decide +kernel

end VidModelSelector

end VirtualPeople.Selector
