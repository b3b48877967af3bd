import VirtualPeople.Outcome

/-!
# The least-recently-used cache of the selector

The cache keeps a map from civil days to percentages and a list of the days in
the order of their last use.  The selector adds a day only when it is missing,
and then the list names the keys of the map, each once.
-/

namespace VirtualPeople.Selector

/-- A release, with the share of events up to which it is chosen. -/
structure ModelReleasePercentile where
  endPercentile : Float
  modelReleaseResourceKey : String

/-- The data by their days, and the days in the order of access. -/
structure LruCache where
  cacheData : List (ℤ × List ModelReleasePercentile)
  accessOrder : List ℤ
  cacheSize : ℕ

namespace LruCache

/-- `LruCache::LruCache`. -/
def new (maxElements : ℕ) : LruCache where
  cacheData := []
  accessOrder := []
  cacheSize := maxElements

/-- `cache_data.find` -/
def find (cache : LruCache) (key : ℤ) : Option (List ModelReleasePercentile) :=
  cache.cacheData.lookup key

/-- `cache_data.erase` -/
def erase (cache : LruCache) (key : ℤ) :
    List (ℤ × List ModelReleasePercentile) :=
  cache.cacheData.filter (·.1 ≠ key)

/-- The eviction that makes room for another key. -/
def evict (cache : LruCache) : Result LruCache :=
  if cache.cacheSize ≤ cache.cacheData.length then
    match cache.accessOrder.getLast? with
    | some lruKey =>
      return { cache with
        cacheData := cache.erase lruKey
        accessOrder := cache.accessOrder.dropLast }
    | none => throw .outOfBounds
  else return cache

/-- `LruCache::Add`. -/
def add (cache : LruCache) (key : ℤ) (data : List ModelReleasePercentile) :
    Result LruCache := do
  let cache ← cache.evict
  return { cache with
    cacheData := (key, data) :: cache.erase key
    accessOrder := key :: cache.accessOrder }

/-- `LruCache::Get`. -/
def get (cache : LruCache) (key : ℤ) :
    Option (List ModelReleasePercentile) × LruCache :=
  match cache.find key with
  | some data =>
    if key ∈ cache.accessOrder then
      (some data,
        { cache with accessOrder := key :: cache.accessOrder.erase key })
    else (some data, cache)
  | none => (none, cache)

@[simp] theorem cacheSize_get (cache : LruCache) (key : ℤ) :
    (cache.get key).2.cacheSize = cache.cacheSize := by
  unfold get
  split
  · split_ifs <;> rfl
  · rfl

theorem cacheSize_add {cache added : LruCache} {key : ℤ}
    {data : List ModelReleasePercentile}
    (addedEq : cache.add key data = .ok added) :
    added.cacheSize = cache.cacheSize := by
  obtain ⟨evicted, evictedEq, addedEq⟩ := bind_eq_ok_iff.mp addedEq
  rw [← Except.ok.inj addedEq]
  unfold evict at evictedEq
  split_ifs at evictedEq
  · split at evictedEq
    · rw [← Except.ok.inj evictedEq]
    · contradiction
  · rw [Except.ok.inj evictedEq]

/-- The list names the keys of the map, and each value is the one that
`calculate` gives for its key. -/
structure Holds (calculate : ℤ → List ModelReleasePercentile)
    (cache : LruCache) : Prop where
  values : ∀ entry ∈ cache.cacheData, entry.2 = calculate entry.1
  nodup : (cache.cacheData.map (·.1)).Nodup
  order : cache.accessOrder.Perm (cache.cacheData.map (·.1))
  positive : 0 < cache.cacheSize
  bounded : cache.cacheData.length ≤ cache.cacheSize

variable {calculate : ℤ → List ModelReleasePercentile} {cache : LruCache}

theorem holds_new {maxElements : ℕ} (positive : 0 < maxElements) :
    Holds calculate (new maxElements) where
  values := by simp [new]
  nodup := List.nodup_nil
  order := .refl _
  positive := positive
  bounded := Nat.zero_le _

theorem Holds.find_eq (holds : Holds calculate cache) {key : ℤ}
    {data : List ModelReleasePercentile} (found : cache.find key = some data) :
    data = calculate key := by
  have member : (key, data) ∈ cache.cacheData := by
    unfold find at found
    rw [List.lookup_eq_some_iff] at found
    obtain ⟨before, after, split, -⟩ := found
    rw [split]
    simp
  exact holds.values _ member

theorem find_eq_none {key : ℤ} (missing : cache.find key = none) :
    key ∉ cache.cacheData.map (·.1) := by
  intro member
  obtain ⟨entry, entryMem, rfl⟩ := List.mem_map.mp member
  rw [find, List.lookup_eq_none_iff] at missing
  have := missing entry entryMem
  simp at this

theorem Holds.get (holds : Holds calculate cache) (key : ℤ) :
    Holds calculate (cache.get key).2 := by
  unfold LruCache.get
  split
  · split_ifs with used
    · exact { holds with
        order := (List.perm_cons_erase used).symm.trans holds.order }
    · exact holds
  · exact holds

theorem keys_filter (entries : List (ℤ × List ModelReleasePercentile))
    (key : ℤ) :
    (entries.filter (·.1 ≠ key)).map (·.1) =
      (entries.map (·.1)).filter (· ≠ key) := by
  rw [List.filter_map]
  rfl

/-- Evicting leaves room for one more entry, and adds no key. -/
theorem Holds.evict (holds : Holds calculate cache) :
    ∃ evicted, cache.evict = .ok evicted ∧ Holds calculate evicted ∧
      evicted.cacheData.length < evicted.cacheSize ∧
      ∀ key ∈ evicted.cacheData.map (·.1), key ∈ cache.cacheData.map (·.1) := by
  have positive := holds.positive
  unfold LruCache.evict
  split_ifs with full
  · have lengthEq := holds.order.length_eq
    rw [List.length_map] at lengthEq
    have nonempty : cache.accessOrder ≠ [] := by
      rw [← List.length_pos_iff]
      omega
    rw [List.getLast?_eq_some_getLast nonempty]
    have split := List.dropLast_append_getLast nonempty
    obtain ⟨lruKey, lruKeyEq⟩ : ∃ lruKey,
        cache.accessOrder.getLast nonempty = lruKey := ⟨_, rfl⟩
    rw [lruKeyEq] at split ⊢
    have orderNodup : cache.accessOrder.Nodup :=
      holds.order.nodup_iff.mpr holds.nodup
    have order : cache.accessOrder.dropLast.Perm
        ((cache.erase lruKey).map (·.1)) := by
      rw [erase, keys_filter]
      refine List.Perm.trans ?_ (holds.order.filter _)
      rw [← split] at orderNodup ⊢
      rw [List.filter_append, List.dropLast_concat]
      have notIn := (List.nodup_append.mp orderNodup).2.2
      rw [List.filter_eq_self.mpr]
      · simp
      · intro other member
        simpa using notIn other member lruKey (by simp)
    have shorter := order.length_eq
    rw [List.length_dropLast, List.length_map] at shorter
    refine ⟨_, rfl, ⟨?_, ?_, order, positive, ?_⟩, ?_, ?_⟩
    · exact fun entry member => holds.values entry (List.mem_of_mem_filter member)
    · exact holds.nodup.sublist (List.filter_sublist.map _)
    · change (cache.erase lruKey).length ≤ cache.cacheSize
      have := holds.bounded
      omega
    · change (cache.erase lruKey).length < cache.cacheSize
      have := holds.bounded
      omega
    · exact fun key member => (List.filter_sublist.map _).subset member
  · exact ⟨cache, rfl, holds, by omega, fun _ member => member⟩

/-- Adding the calculated value of a missing key keeps the invariant, and finds
a key to evict whenever it has to. -/
theorem Holds.add (holds : Holds calculate cache) {key : ℤ}
    (missing : cache.find key = none) :
    ∃ added, cache.add key (calculate key) = .ok added ∧
      Holds calculate added := by
  obtain ⟨evicted, evictedEq, evictedHolds, room, keys⟩ := holds.evict
  have notIn : key ∉ evicted.cacheData.map (·.1) :=
    fun member => find_eq_none missing (keys key member)
  have eraseEq : evicted.erase key = evicted.cacheData := by
    rw [erase, List.filter_eq_self]
    intro entry member
    simp only [ne_eq, decide_not, Bool.not_eq_eq_eq_not, Bool.not_true,
      decide_eq_false_iff_not]
    rintro rfl
    exact notIn (List.mem_map_of_mem member)
  refine ⟨_, bind_eq_ok_iff.mpr ⟨evicted, evictedEq, rfl⟩, ?_⟩
  rw [eraseEq]
  refine ⟨?_, ?_, evictedHolds.order.cons key, evictedHolds.positive, room⟩
  · intro entry member
    rcases List.mem_cons.mp member with rfl | inRest
    · rfl
    · exact evictedHolds.values entry inRest
  · exact List.nodup_cons.mpr ⟨notIn, evictedHolds.nodup⟩

end LruCache

end VirtualPeople.Selector
