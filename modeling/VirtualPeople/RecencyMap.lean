import Mathlib.Data.List.Nodup
import Mathlib.Data.List.TakeDrop

/-!
# The map that forgets the least recently used key

A map of bounded size that keeps its entries in the order of their last use.
Adding a key and reading a key that the map holds are uses of the key.  A new
key that does not fit takes the place of the key whose last use is the oldest.
-/

/-- The entries, the one with the most recent use first. -/
structure RecencyMap (Key Value : Type*) (capacity : ℕ) where
  entries : List (Key × Value)
  nodup : (entries.map Prod.fst).Nodup
  bounded : entries.length ≤ capacity

namespace RecencyMap

/-- The calls that a map with limited capacity answers. -/
inductive Operation (Key Value : Type*)
  | add (key : Key) (value : Value)
  | get (key : Key)

variable {Key Value : Type*} {capacity : ℕ}

/-- The map without entries. -/
def empty : RecencyMap Key Value capacity where
  entries := []
  nodup := List.nodup_nil
  bounded := Nat.zero_le _

/-- The keys, from the one used last to the one used first. -/
def keys (map : RecencyMap Key Value capacity) : List Key :=
  map.entries.map Prod.fst

variable [DecidableEq Key] (map : RecencyMap Key Value capacity)

/-- The value of a key. -/
def lookup (key : Key) : Option Value :=
  map.entries.lookup key

/-- The entries of all other keys. -/
def others (key : Key) : List (Key × Value) :=
  map.entries.filter (·.1 ≠ key)

theorem nodup_cons_others (key : Key) (value : Value) :
    (((key, value) :: map.others key).map Prod.fst).Nodup := by
  refine List.nodup_cons.mpr ⟨?_, map.nodup.sublist (List.filter_sublist.map _)⟩
  intro member
  obtain ⟨entry, entryMem, same⟩ := List.mem_map.mp member
  simpa [same] using List.of_mem_filter entryMem

/-- The entry comes first, and the oldest one goes if there is no room. -/
def add (key : Key) (value : Value) : RecencyMap Key Value capacity where
  entries := ((key, value) :: map.others key).take capacity
  nodup := (map.nodup_cons_others key value).sublist
    ((List.take_sublist _ _).map _)
  bounded := List.length_take_le _ _

/-- The value of a key, which becomes the one used last. -/
def get (key : Key) : Option Value × RecencyMap Key Value capacity :=
  match map.lookup key with
  | some value => (some value, map.add key value)
  | none => (none, map)

/-- The answer to a call, and the map after it. -/
def step : Operation Key Value →
    Option Value × RecencyMap Key Value capacity
  | .add key value => (none, map.add key value)
  | .get key => map.get key

/-- What the operations return, one after the other, and the map they leave. -/
def run (map : RecencyMap Key Value capacity) :
    List (Operation Key Value) →
      List (Option Value) × RecencyMap Key Value capacity
  | [] => ([], map)
  | operation :: operations =>
    let (output, next) := map.step operation
    let (outputs, last) := run next operations
    (output :: outputs, last)

/-! ## The entries of a map -/

section Entries

variable {map} {key : Key} {value : Value}

/-- In a list with distinct keys the lookup finds exactly its entries. -/
theorem lookup_entries_eq_some_iff {entries : List (Key × Value)}
    (nodup : (entries.map Prod.fst).Nodup) :
    entries.lookup key = some value ↔ (key, value) ∈ entries := by
  constructor
  · intro found
    obtain ⟨before, after, split, -⟩ := List.lookup_eq_some_iff.mp found
    simp [split]
  · intro member
    obtain ⟨before, after, rfl⟩ := List.append_of_mem member
    refine List.lookup_eq_some_iff.mpr ⟨before, after, rfl, ?_⟩
    intro entry inBefore
    rw [List.map_append, List.nodup_append] at nodup
    simpa using (nodup.2.2 entry.1 (List.mem_map_of_mem inBefore) key
      (by simp)).symm

theorem lookup_eq_some_iff :
    map.lookup key = some value ↔ (key, value) ∈ map.entries :=
  lookup_entries_eq_some_iff map.nodup

theorem lookup_eq_none_iff : map.lookup key = none ↔ key ∉ map.keys := by
  rw [lookup, List.lookup_eq_none_iff, keys, List.mem_map]
  constructor
  · rintro different ⟨entry, member, rfl⟩
    simpa using different entry member
  · intro missing entry member
    simpa using fun same => missing ⟨entry, member, same.symm⟩

theorem others_eq_entries (missing : key ∉ map.keys) :
    map.others key = map.entries := by
  rw [others, List.filter_eq_self]
  intro entry member
  simpa using fun same => missing (List.mem_map.mpr ⟨entry, member, same⟩)

/-- A held entry in front of the others gives the entries in another order. -/
theorem perm_cons_others (member : (key, value) ∈ map.entries) :
    map.entries.Perm ((key, value) :: map.others key) := by
  refine (List.perm_ext_iff_of_nodup (List.Nodup.of_map _ map.nodup)
    (List.Nodup.of_map _ (map.nodup_cons_others key value))).mpr ?_
  rintro ⟨other, data⟩
  rw [List.mem_cons, others, List.mem_filter]
  by_cases same : other = key
  · subst same
    have found := lookup_eq_some_iff.mpr member
    simp [← lookup_eq_some_iff, found, eq_comm]
  · simp [same]

theorem map_fst_others : (map.others key).map Prod.fst = map.keys.erase key := by
  have nodup : map.keys.Nodup := map.nodup
  rw [nodup.erase_eq_filter, keys, List.filter_map, others]
  congr 1
  refine List.filter_congr ?_
  simp [bne, beq_eq_decide]

/-- Without the oldest key the entries end one earlier. -/
theorem others_eq_dropLast (oldest : map.keys.getLast? = some key) :
    map.others key = map.entries.dropLast := by
  obtain ⟨before, keysEq⟩ := List.getLast?_eq_some_iff.mp oldest
  obtain ⟨earlier, rest, entriesEq, rfl, restEq⟩ :=
    List.map_eq_append_iff.mp keysEq
  obtain ⟨entry, rfl, rfl⟩ := List.map_eq_singleton_iff.mp restEq
  have nodup := map.nodup
  rw [entriesEq, List.map_append, List.nodup_append] at nodup
  rw [others, entriesEq, List.dropLast_concat, List.filter_append,
    List.filter_eq_self.mpr]
  · simp
  · intro other member
    simpa using nodup.2.2 other.1 (List.mem_map_of_mem member) entry.1 (by simp)

end Entries

/-! ## What a use does to the order of the keys -/

section Order

variable {map} {key : Key} {value : Value}

theorem entries_add :
    (map.add key value).entries =
      ((key, value) :: map.others key).take capacity :=
  rfl

/-- Adding a held key replaces its value and evicts nothing. -/
theorem entries_add_of_mem (held : key ∈ map.keys) :
    (map.add key value).entries = (key, value) :: map.others key := by
  have shorter : (map.others key).length + 1 = map.entries.length := by
    obtain ⟨⟨_, data⟩, member, rfl⟩ := List.mem_map.mp held
    exact (perm_cons_others member).length_eq.symm
  have := map.bounded
  rw [entries_add]
  exact List.take_of_length_le (by simp only [List.length_cons]; omega)

theorem keys_add_of_mem (held : key ∈ map.keys) :
    (map.add key value).keys = key :: map.keys.erase key := by
  rw [keys, entries_add_of_mem held, List.map_cons, map_fst_others]

/-- Adding a new key evicts nothing as long as there is room. -/
theorem entries_add_of_room (missing : key ∉ map.keys)
    (room : map.entries.length < capacity) :
    (map.add key value).entries = (key, value) :: map.entries := by
  rw [entries_add, others_eq_entries missing]
  exact List.take_of_length_le (by simp only [List.length_cons]; omega)

/-- Adding a new key to a full map evicts the key whose use is the oldest. -/
theorem entries_add_of_full (missing : key ∉ map.keys)
    (full : map.entries.length = capacity) (positive : 0 < capacity) :
    (map.add key value).entries = (key, value) :: map.entries.dropLast := by
  rw [entries_add, others_eq_entries missing, List.dropLast_eq_take, full]
  obtain ⟨rest, rfl⟩ := Nat.exists_eq_add_one.mpr positive
  rfl

end Order

/-! ## The value of a held key -/

section Latest

variable {map} {key other : Key} {value data : Value}

theorem lookup_add_self (positive : 0 < capacity) :
    (map.add key value).lookup key = some value := by
  obtain ⟨rest, rfl⟩ := Nat.exists_eq_add_one.mpr positive
  rw [lookup, entries_add, List.take_succ_cons, List.lookup_cons_self]

theorem lookup_of_lookup_add (different : other ≠ key)
    (found : (map.add key value).lookup other = some data) :
    map.lookup other = some data := by
  rw [lookup_eq_some_iff, entries_add] at found
  rcases List.mem_cons.mp (List.mem_of_mem_take found) with same | member
  · exact absurd (congrArg Prod.fst same) different
  · exact lookup_eq_some_iff.mpr (List.mem_of_mem_filter member)

/-- What the latest addition of the key is once the operation has run. -/
def latestStep (key : Key) (latest : Option Value) :
    Operation Key Value → Option Value
  | .add added value => if added = key then some value else latest
  | .get _ => latest

/-- The value of the latest addition of the key, from `latest` on. -/
def latestAdd (key : Key) (latest : Option Value)
    (operations : List (Operation Key Value)) : Option Value :=
  operations.foldl (latestStep key) latest

/-- Held keys have the value of their latest addition. -/
def Current (map : RecencyMap Key Value capacity)
    (latest : Key → Option Value) : Prop :=
  ∀ key value, map.lookup key = some value → latest key = some value

variable {latest : Key → Option Value}

theorem Current.add (positive : 0 < capacity) (current : Current map latest)
    (key : Key) (value : Value) :
    Current (map.add key value)
      fun other => latestStep other (latest other) (.add key value) := by
  intro other data found
  by_cases same : key = other
  · subst same
    rw [lookup_add_self positive] at found
    simpa [latestStep] using found
  · simpa [latestStep, same] using
      current other data (lookup_of_lookup_add (Ne.symm same) found)

theorem Current.step (positive : 0 < capacity) (current : Current map latest)
    (operation : Operation Key Value) :
    Current (map.step operation).2
      fun key => latestStep key (latest key) operation := by
  cases operation with
  | add key value => exact current.add positive key value
  | get key =>
    simp only [RecencyMap.step, get, latestStep]
    split
    next value held =>
      -- Reading a key adds it again with the value it has.
      intro other data found
      by_cases same : key = other
      · subst same
        rw [lookup_add_self positive] at found
        exact current key data (held.trans found)
      · exact current other data (lookup_of_lookup_add (Ne.symm same) found)
    next => exact current

theorem Current.run (positive : 0 < capacity) (current : Current map latest)
    (operations : List (Operation Key Value)) :
    Current (map.run operations).2
      fun key => latestAdd key (latest key) operations := by
  induction operations generalizing map latest with
  | nil => exact current
  | cons operation operations inductionHypothesis =>
    exact inductionHypothesis (current.step positive operation)

/-- From the empty map on, a held key has the value of its latest addition. -/
theorem latestAdd_of_lookup_run (positive : 0 < capacity)
    {operations : List (Operation Key Value)}
    (held : ((empty : RecencyMap Key Value capacity).run operations).2.lookup
      key = some value) :
    latestAdd key none operations = some value := by
  have start : Current (empty : RecencyMap Key Value capacity)
      fun _ => none := nofun
  exact start.run positive operations key value held

end Latest

end RecencyMap
