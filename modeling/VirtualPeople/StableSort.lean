import Mathlib.Data.List.Sort

/-!
# Sorting by a key

A stable sort keeps the order of the elements with the same key.  Its result is
therefore fixed by what it is given for each key, in whatever order the keys
come.
-/

namespace StableSort

variable {α Key : Type*} [LinearOrder Key] {key : α → Key} {list list' : List α}

/-- The key of the first element is not above that of the second one. -/
def KeyLE (key : α → Key) (first second : α) : Prop :=
  key first ≤ key second

instance : DecidableRel (KeyLE key) :=
  fun first second => inferInstanceAs (Decidable (key first ≤ key second))

instance : Std.Total (KeyLE key) :=
  ⟨fun first second => le_total (key first) (key second)⟩

instance : IsTrans α (KeyLE key) :=
  ⟨fun _ _ _ => le_trans⟩

/-- The list in the order of its keys. -/
def sortBy (key : α → Key) (list : List α) : List α :=
  list.insertionSort (KeyLE key)

/-- The elements with one key. -/
def withKey (key : α → Key) (value : Key) (list : List α) : List α :=
  list.filter fun element => key element = value

theorem mem_withKey {value : Key} {element : α} :
    element ∈ withKey key value list ↔ element ∈ list ∧ key element = value := by
  rw [withKey, List.mem_filter, decide_eq_true_eq]

theorem sortBy_perm (key : α → Key) (list : List α) :
    (sortBy key list).Perm list :=
  List.perm_insertionSort _ list

theorem pairwise_sortBy (key : α → Key) (list : List α) :
    (sortBy key list).Pairwise (KeyLE key) :=
  List.pairwise_insertionSort _ list

/-- The sort is stable. -/
theorem withKey_sortBy (value : Key) (list : List α) :
    withKey key value (sortBy key list) = withKey key value list := by
  have sameKeys : (withKey key value list).Pairwise (KeyLE key) := by
    refine List.pairwise_of_forall_mem_list fun first firstMem second secondMem => ?_
    rw [KeyLE, (mem_withKey.mp firstMem).2, (mem_withKey.mp secondMem).2]
  have inSorted : (withKey key value list).Sublist (sortBy key list) :=
    List.sublist_insertionSort sameKeys List.filter_sublist
  have inKey : (withKey key value list).Sublist
      (withKey key value (sortBy key list)) := by
    have filtered := inSorted.filter fun element => decide (key element = value)
    simpa only [withKey, List.filter_filter, Bool.and_self] using filtered
  exact (inKey.eq_of_length
    ((sortBy_perm key list).filter _).length_eq.symm).symm

/-- The first key of a sorted list is at most each key of a list with the same
elements. -/
theorem key_head_le {first first' : α} {rest rest' : List α}
    (sorted : (first :: rest).Pairwise (KeyLE key))
    (same : ∀ value,
      withKey key value (first :: rest) = withKey key value (first' :: rest')) :
    key first ≤ key first' := by
  have member : first' ∈ withKey key (key first') (first :: rest) := by
    rw [same]
    exact mem_withKey.mpr ⟨List.mem_cons_self, rfl⟩
  rcases List.mem_cons.mp (mem_withKey.mp member).1 with rfl | inRest
  · exact le_rfl
  · exact List.rel_of_pairwise_cons sorted inRest

/-- A sorted list is fixed by its elements with each key, in their order. -/
theorem eq_of_sorted
    (sorted : list.Pairwise (KeyLE key)) (sorted' : list'.Pairwise (KeyLE key))
    (same : ∀ value, withKey key value list = withKey key value list') :
    list = list' := by
  induction list generalizing list' with
  | nil =>
    cases list' with
    | nil => rfl
    | cons first' rest' => simpa [withKey] using same (key first')
  | cons first rest inductionHypothesis =>
    cases list' with
    | nil => simpa [withKey] using same (key first)
    | cons first' rest' =>
      have sameKey : key first = key first' :=
        le_antisymm (key_head_le sorted same)
          (key_head_le sorted' fun value => (same value).symm)
      obtain ⟨rfl, -⟩ : first = first' ∧ _ := by
        have here := same (key first)
        rw [withKey, withKey, List.filter_cons_of_pos (by simp),
          List.filter_cons_of_pos (by simp [sameKey])] at here
        exact List.cons.inj here
      congr 1
      refine inductionHypothesis sorted.of_cons sorted'.of_cons fun value => ?_
      have here := same value
      simp only [withKey, List.filter_cons] at here ⊢
      split_ifs at here
      · exact (List.cons.inj here).2
      · exact here

theorem sortBy_congr
    (same : ∀ value, withKey key value list = withKey key value list') :
    sortBy key list = sortBy key list' := by
  refine eq_of_sorted (pairwise_sortBy key list) (pairwise_sortBy key list')
    fun value => ?_
  rw [withKey_sortBy, withKey_sortBy, same]

end StableSort
