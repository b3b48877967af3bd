import VirtualPeople.RecencyMap
import VirtualPeople.Selector.LruCache

/-!
# Runs of the cache

`Add` puts every key in front of the order of use, also a key that the order
names already.  As long as each added key is missing, or is the one that makes
room for itself, the cache is the map that forgets the least recently used key.
-/

namespace VirtualPeople.Selector.LruCache

/-- A call of the cache. -/
abbrev Operation :=
  RecencyMap.Operation ℤ (List ModelReleasePercentile)

/-- The map that a cache of this size should be. -/
abbrev Ideal (maxElements : ℕ) :=
  RecencyMap ℤ (List ModelReleasePercentile) maxElements

/-- A call of `Add` or `Get`. -/
def call : Operation → Step LruCache (Option (List ModelReleasePercentile))
  | .add key data => do
    let cache ← getThe LruCache
    let cache ← Step.lift (cache.add key data)
    set cache
    return none
  | .get key => do
    let cache ← getThe LruCache
    let (data, cache) := cache.get key
    set cache
    return data

/-- The key is missing, or it is the oldest key of a full cache. -/
def CanAdd (cache : LruCache) (key : ℤ) : Prop :=
  cache.find key = none ∨
    cache.cacheSize ≤ cache.cacheData.length ∧
      cache.accessOrder.getLast? = some key

/-- The call is one that the cache answers as the map does. -/
def Allows (cache : LruCache) : Operation → Prop
  | .add key _ => cache.CanAdd key
  | .get _ => True

/-- Every operation of the run is allowed in the state before it. -/
def AllowsRun (cache : LruCache) : List Operation → Prop
  | [] => True
  | operation :: operations =>
    cache.Allows operation ∧
      ∀ output next, call operation cache = .ok output next →
        AllowsRun next operations

/-- The map and the order of use are those of the ideal cache. -/
structure Simulates {maxElements : ℕ} (cache : LruCache)
    (ideal : Ideal maxElements) : Prop where
  entries : cache.cacheData.Perm ideal.entries
  order : cache.accessOrder = ideal.keys
  size : cache.cacheSize = maxElements

variable {maxElements : ℕ} {cache : LruCache} {ideal : Ideal maxElements}
  {key : ℤ} {data : List ModelReleasePercentile}

theorem simulates_new : Simulates (new maxElements) (.empty : Ideal maxElements)
    where
  entries := .refl _
  order := rfl
  size := rfl

namespace Simulates

/-- The cache finds what the map holds. -/
theorem find_eq (simulates : Simulates cache ideal) (key : ℤ) :
    cache.find key = ideal.lookup key := by
  ext data
  have nodup : (cache.cacheData.map Prod.fst).Nodup :=
    (simulates.entries.map _).nodup_iff.mpr ideal.nodup
  rw [find, RecencyMap.lookup_entries_eq_some_iff nodup,
    RecencyMap.lookup_eq_some_iff, simulates.entries.mem_iff]

theorem erase (simulates : Simulates cache ideal) (key : ℤ) :
    (cache.erase key).Perm (ideal.others key) :=
  simulates.entries.filter _

theorem full_iff (simulates : Simulates cache ideal) :
    cache.cacheSize ≤ cache.cacheData.length ↔
      ideal.entries.length = maxElements := by
  rw [simulates.size, simulates.entries.length_eq]
  exact ⟨fun full => Nat.le_antisymm ideal.bounded full, Nat.le_of_eq ∘ Eq.symm⟩

/-- A hit moves the key to the front, and a miss changes nothing. -/
theorem get (simulates : Simulates cache ideal) (key : ℤ) :
    (cache.get key).1 = (ideal.get key).1 ∧
      Simulates (cache.get key).2 (ideal.get key).2 := by
  rw [LruCache.get, RecencyMap.get, simulates.find_eq]
  cases held : ideal.lookup key with
  | none => exact ⟨rfl, simulates⟩
  | some data =>
    have member := RecencyMap.lookup_eq_some_iff.mp held
    have inKeys : key ∈ ideal.keys := List.mem_map_of_mem member
    have used : key ∈ cache.accessOrder := simulates.order ▸ inKeys
    simp only [if_pos used]
    refine ⟨trivial, ?_, ?_, simulates.size⟩
    · rw [RecencyMap.entries_add_of_mem inKeys]
      exact simulates.entries.trans (RecencyMap.perm_cons_others member)
    · rw [RecencyMap.keys_add_of_mem inKeys, ← simulates.order]

theorem evict_of_room (simulates : Simulates cache ideal)
    (room : ideal.entries.length ≠ maxElements) :
    cache.evict = .ok cache := by
  rw [evict, if_neg (mt simulates.full_iff.mp room)]
  rfl

theorem evict_of_full (simulates : Simulates cache ideal)
    (full : ideal.entries.length = maxElements) {lruKey : ℤ}
    (oldest : ideal.keys.getLast? = some lruKey) :
    cache.evict = .ok { cache with
      cacheData := cache.erase lruKey
      accessOrder := ideal.keys.dropLast } := by
  rw [evict, if_pos (simulates.full_iff.mpr full), simulates.order, oldest]
  rfl

/-- What is left to check once room has been made for the key. -/
theorem of_evict {evicted : LruCache} (evictEq : cache.evict = .ok evicted)
    {rest : List (ℤ × List ModelReleasePercentile)}
    (entries : (evicted.erase key).Perm rest)
    (order : evicted.accessOrder = rest.map Prod.fst)
    (size : evicted.cacheSize = maxElements)
    (addEq : (ideal.add key data).entries = (key, data) :: rest) :
    ∃ added, cache.add key data = .ok added ∧
      Simulates added (ideal.add key data) := by
  refine ⟨_, bind_eq_ok_iff.mpr ⟨evicted, evictEq, rfl⟩, ?_, ?_, size⟩
  · rw [addEq]
    exact entries.cons _
  · rw [RecencyMap.keys, addEq, List.map_cons, order]

theorem erase_of_missing (missing : key ∉ ideal.keys)
    {entries : List (ℤ × List ModelReleasePercentile)}
    (kept : entries ⊆ ideal.entries) :
    entries.filter (·.1 ≠ key) = entries := by
  rw [List.filter_eq_self]
  intro entry member
  simpa using fun same =>
    missing (List.mem_map.mpr ⟨entry, kept member, same⟩)

/-- Adding a new key keeps the cache in step with the map. -/
theorem add_of_missing (simulates : Simulates cache ideal)
    (positive : 0 < maxElements) (missing : key ∉ ideal.keys)
    (data : List ModelReleasePercentile) :
    ∃ added, cache.add key data = .ok added ∧
      Simulates added (ideal.add key data) := by
  by_cases full : ideal.entries.length = maxElements
  · have nonempty : ideal.keys ≠ [] := by
      rw [← List.length_pos_iff, RecencyMap.keys, List.length_map]
      omega
    have oldest := List.getLast?_eq_some_getLast nonempty
    have kept : (cache.erase (ideal.keys.getLast nonempty)).Perm
        ideal.entries.dropLast :=
      RecencyMap.others_eq_dropLast oldest ▸ simulates.erase _
    refine of_evict (simulates.evict_of_full full oldest) ?_ ?_ simulates.size
      (RecencyMap.entries_add_of_full missing full positive)
    · refine (kept.filter _).trans (.of_eq ?_)
      exact erase_of_missing missing (List.dropLast_subset _)
    · exact (List.map_dropLast).symm
  · have room := Nat.lt_of_le_of_ne ideal.bounded full
    refine of_evict (simulates.evict_of_room full) ?_ simulates.order
      simulates.size (RecencyMap.entries_add_of_room missing room)
    rw [← RecencyMap.others_eq_entries missing]
    exact simulates.erase key

/-- The oldest key of a full cache makes room for itself. -/
theorem add_of_oldest (simulates : Simulates cache ideal)
    (full : ideal.entries.length = maxElements)
    (oldest : ideal.keys.getLast? = some key)
    (data : List ModelReleasePercentile) :
    ∃ added, cache.add key data = .ok added ∧
      Simulates added (ideal.add key data) := by
  have held : key ∈ ideal.keys := List.mem_of_getLast? oldest
  refine of_evict (simulates.evict_of_full full oldest) ?_ ?_ simulates.size
    (RecencyMap.entries_add_of_mem held)
  · refine ((simulates.erase key).filter _).trans (.of_eq ?_)
    rw [RecencyMap.others, List.filter_filter]
    simp only [Bool.and_self]
  · rw [RecencyMap.others_eq_dropLast oldest, List.map_dropLast]
    rfl

theorem canAdd_iff (simulates : Simulates cache ideal) :
    cache.CanAdd key ↔ key ∉ ideal.keys ∨
      ideal.entries.length = maxElements ∧
        ideal.keys.getLast? = some key := by
  rw [CanAdd, simulates.find_eq, RecencyMap.lookup_eq_none_iff,
    simulates.full_iff, simulates.order]

/-- Adding an allowed key keeps the cache in step with the map. -/
theorem add (simulates : Simulates cache ideal) (positive : 0 < maxElements)
    (canAdd : cache.CanAdd key) (data : List ModelReleasePercentile) :
    ∃ added, cache.add key data = .ok added ∧
      Simulates added (ideal.add key data) := by
  rcases simulates.canAdd_iff.mp canAdd with missing | ⟨full, oldest⟩
  · exact simulates.add_of_missing positive missing data
  · exact simulates.add_of_oldest full oldest data

/-- Any other addition leaves the key twice in the order of use. -/
theorem canAdd_of_add (simulates : Simulates cache ideal) {added : LruCache}
    (addEq : cache.add key data = .ok added)
    (after : Simulates added (ideal.add key data)) : cache.CanAdd key := by
  obtain ⟨evicted, evictEq, addEq⟩ := bind_eq_ok_iff.mp addEq
  have order : key :: evicted.accessOrder = (ideal.add key data).keys := by
    rw [← after.order, ← Except.ok.inj addEq]
  have notIn : key ∉ evicted.accessOrder := by
    have nodup : (ideal.add key data).keys.Nodup := (ideal.add key data).nodup
    rw [← order] at nodup
    exact (List.nodup_cons.mp nodup).1
  rw [simulates.canAdd_iff, or_iff_not_imp_left, not_not]
  intro held
  by_cases full : ideal.entries.length = maxElements
  · refine ⟨full, ?_⟩
    have nonempty := List.ne_nil_of_mem held
    have oldest := List.getLast?_eq_some_getLast nonempty
    rw [simulates.evict_of_full full oldest] at evictEq
    rw [← Except.ok.inj evictEq] at notIn
    rw [← List.dropLast_append_getLast nonempty] at held
    have isLast := (List.mem_append.mp held).resolve_left notIn
    rw [oldest, List.mem_singleton.mp isLast]
  · rw [simulates.evict_of_room full] at evictEq
    rw [← Except.ok.inj evictEq, simulates.order] at notIn
    exact absurd held notIn

/-- An allowed call keeps the cache in step with the map. -/
theorem call (simulates : Simulates cache ideal) (positive : 0 < maxElements)
    {operation : Operation} (allowed : cache.Allows operation) :
    ∃ next, LruCache.call operation cache =
        .ok (ideal.step operation).1 next ∧
      Simulates next (ideal.step operation).2 := by
  cases operation with
  | add key data =>
    obtain ⟨added, addEq, after⟩ := simulates.add positive allowed data
    refine ⟨added, ?_, after⟩
    change EStateM.bind (Step.lift (cache.add key data)) _ cache = _
    rw [addEq]
    rfl
  | get key =>
    have ⟨outputEq, after⟩ := simulates.get key
    exact ⟨_, congrArg (EStateM.Result.ok · _) outputEq, after⟩

/-- A run of allowed calls keeps the cache in step with the map. -/
theorem run (simulates : Simulates cache ideal) (positive : 0 < maxElements)
    {operations : List Operation} (allowed : cache.AllowsRun operations) :
    ∃ last, operations.mapM LruCache.call cache =
        .ok (ideal.run operations).1 last ∧
      Simulates last (ideal.run operations).2 := by
  induction operations generalizing cache ideal with
  | nil => exact ⟨cache, rfl, simulates⟩
  | cons operation operations inductionHypothesis =>
    obtain ⟨first, rest⟩ := allowed
    obtain ⟨next, callEq, after⟩ := simulates.call positive first
    obtain ⟨last, runEq, afterAll⟩ :=
      inductionHypothesis after (rest _ next callEq)
    refine ⟨last, ?_, afterAll⟩
    rw [List.mapM_cons, Step.run_bind_of_ok _ callEq,
      Step.run_bind_of_ok _ runEq]
    rfl

end Simulates

/-- In a run with allowed operations the cache returns what the ideal cache
returns, and it is left with the same order of use and the same values. -/
theorem run_eq_ideal (positive : 0 < maxElements) (operations : List Operation)
    (allowed : (new maxElements).AllowsRun operations) :
    ∃ cache, operations.mapM call (new maxElements) =
        .ok ((.empty : Ideal maxElements).run operations).1 cache ∧
      cache.cacheData.length ≤ maxElements ∧
      cache.accessOrder =
        ((.empty : Ideal maxElements).run operations).2.keys ∧
      ∀ key,
        cache.find key =
          ((.empty : Ideal maxElements).run operations).2.lookup key ∧
        ∀ data, cache.find key = some data →
          RecencyMap.latestAdd key none operations = some data := by
  obtain ⟨cache, runEq, simulates⟩ := simulates_new.run positive allowed
  refine ⟨cache, runEq, ?_, simulates.order, fun key => ?_⟩
  · rw [simulates.entries.length_eq]
    exact RecencyMap.bounded _
  · refine ⟨simulates.find_eq key, fun data found => ?_⟩
    rw [simulates.find_eq] at found
    exact RecencyMap.latestAdd_of_lookup_run positive found

theorem run_eq_ideal_evicting :
    ∃ cache, [.add 1 [], .add 2 [], .get 1, .add 3 [], .get 2].mapM call (new 2) =
        .ok [none, none, some [], none, none] cache ∧
      cache.accessOrder = [3, 1] := by
  obtain ⟨cache, runEq, -, orderEq, -⟩ := @run_eq_ideal 2 (by decide)
    [.add 1 [], .add 2 [], .get 1, .add 3 [], .get 2] (by
      refine ⟨.inl rfl, ?_⟩
      rintro _ _ ⟨⟩
      refine ⟨.inl rfl, ?_⟩
      rintro _ _ ⟨⟩
      refine ⟨trivial, ?_⟩
      rintro _ _ ⟨⟩
      refine ⟨.inl rfl, ?_⟩
      rintro _ _ ⟨⟩
      exact ⟨trivial, fun _ _ _ => trivial⟩)
  exact ⟨cache, runEq, orderEq⟩

/-- Adding a held key evicts another one from a full cache, and later the cache
can hold more keys than it has room for. -/
theorem run_ne_ideal :
    (∃ cache, [.add 1 [], .add 2 [], .add 2 [], .get 1].mapM call (new 2) =
        .ok [none, none, none, none] cache) ∧
      ((.empty : Ideal 2).run
        [.add 1 [], .add 2 [], .add 2 [], .get 1]).1 =
          [none, none, none, some []] ∧
      ∃ outputs cache, [.add 1 [], .add 1 [], .add 2 [], .add 3 [],
          .add 4 []].mapM call (new 2) = .ok outputs cache ∧
        cache.cacheData.length = 3 :=
  ⟨⟨_, rfl⟩, rfl, _, _, rfl, rfl⟩

end VirtualPeople.Selector.LruCache
