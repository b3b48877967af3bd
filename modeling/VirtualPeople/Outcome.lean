import Mathlib

/-!
# Outcomes of the labeling code

Fallible functions of the source return a status, and a few of its operations
have no meaning outside their range: a conversion of a floating point number to
an integer type that cannot hold it, a read past the end of a sequence, and a
loop that never ends.  All of these are faults of one type, so that a statement
that a run succeeds also says that none of them happens.
-/

namespace VirtualPeople

/-- The codes of the statuses that the modelled functions return. -/
inductive StatusCode
  | invalidArgument
  | outOfRange
  | internal
  deriving DecidableEq, Repr

/-- An error status. -/
structure Status where
  code : StatusCode
  message : String
  deriving DecidableEq, Repr

/-- The ways in which a modelled function can fail. -/
inductive Fault
  /-- The function returned this error status. -/
  | status (status : Status)
  /-- A floating point value was converted to an integer type too small. -/
  | conversion
  /-- An element outside of a sequence was read. -/
  | outOfBounds
  /-- A loop never ends. -/
  | divergence
  /-- Kotlin's `error` or `check` threw this message. -/
  | illegalState (message : String)
  /-- Kotlin's `require` threw this message. -/
  | illegalArgument (message : String)
  deriving DecidableEq, Repr

/-- What a function returns that can fail. -/
abbrev Result (α : Type) := Except Fault α

/-- The fault of an argument that is not valid. -/
def invalidArgument (message : String) : Fault :=
  .status ⟨.invalidArgument, message⟩

/-- The fault of a number that is out of range. -/
def outOfRange (message : String) : Fault :=
  .status ⟨.outOfRange, message⟩

/-- The fault of a state that should not occur. -/
def internal (message : String) : Fault :=
  .status ⟨.internal, message⟩

/-! ## Peeling successful runs apart -/

/-- A sequence succeeds when both of its parts do. -/
theorem bind_eq_ok_iff {ε α β : Type} {first : Except ε α}
    {next : α → Except ε β} {result : β} :
    (first >>= next) = .ok result ↔
      ∃ value, first = .ok value ∧ next value = .ok result := by
  cases first with
  | error fault => simp [bind, Except.bind]
  | ok value => simp [bind, Except.bind]

/-- A sequence fails when one of its parts does. -/
theorem bind_eq_error_iff {ε α β : Type} {first : Except ε α}
    {next : α → Except ε β} {fault : ε} :
    (first >>= next) = .error fault ↔ first = .error fault ∨
      ∃ value, first = .ok value ∧ next value = .error fault := by
  cases first with
  | error fault => simp [bind, Except.bind]
  | ok value => simp [bind, Except.bind]

/-- Success carries over to every computation that goes on from a success. -/
theorem ok_bind_of_ok {ε α β : Type} {first second : Except ε α}
    {next : α → Except ε β} {result : β}
    (carries : ∀ value, first = .ok value → second = .ok value)
    (run : (first >>= next) = .ok result) : (second >>= next) = .ok result := by
  obtain ⟨value, firstEq, nextEq⟩ := bind_eq_ok_iff.mp run
  exact bind_eq_ok_iff.mpr ⟨value, carries value firstEq, nextEq⟩

theorem toOption_eq_some_iff {ε α : Type} {result : Except ε α} {value : α} :
    result.toOption = some value ↔ result = .ok value := by
  cases result <;> simp [Except.toOption]

/-- A mapped list succeeds when each element does, position by position. -/
theorem mapM_eq_ok_iff {ε α β : Type} {f : α → Except ε β} {inputs : List α}
    {outputs : List β} :
    inputs.mapM f = .ok outputs ↔
      List.Forall₂ (fun input output => f input = .ok output) inputs
        outputs := by
  induction inputs generalizing outputs with
  | nil => cases outputs <;> simp [pure, Except.pure]
  | cons input inputs inductionHypothesis =>
    rw [List.mapM_cons, bind_eq_ok_iff]
    constructor
    · rintro ⟨head, headEq, rest⟩
      obtain ⟨tail, tailEq, outputsEq⟩ := bind_eq_ok_iff.mp rest
      rw [← Except.ok.inj outputsEq]
      exact .cons headEq (inductionHypothesis.mp tailEq)
    · intro related
      cases related with
      | cons headEq tailEq =>
        exact ⟨_, headEq, bind_eq_ok_iff.mpr
          ⟨_, inductionHypothesis.mpr tailEq, rfl⟩⟩

/-- Functions that agree on the inputs map them alike. -/
theorem mapM_congr {ε α β : Type} {f g : α → Except ε β} {inputs : List α}
    (same : ∀ input ∈ inputs, f input = g input) :
    inputs.mapM f = inputs.mapM g := by
  induction inputs with
  | nil => rfl
  | cons input inputs inductionHypothesis =>
    have ⟨head, tail⟩ := List.forall_mem_cons.mp same
    rw [List.mapM_cons, List.mapM_cons, head, inductionHypothesis tail]

/-- Functions that succeed alike on the inputs map them to the same outputs. -/
theorem mapM_ok_congr {ε α β : Type} {f g : α → Except ε β} {inputs : List α}
    (same : ∀ input ∈ inputs, ∀ output,
      f input = .ok output ↔ g input = .ok output) (outputs : List β) :
    inputs.mapM f = .ok outputs ↔ inputs.mapM g = .ok outputs := by
  induction inputs generalizing outputs with
  | nil => rfl
  | cons input inputs inductionHypothesis =>
    have ⟨head, tail⟩ := List.forall_mem_cons.mp same
    rw [List.mapM_cons, List.mapM_cons]
    simp only [bind_eq_ok_iff, head, inductionHypothesis tail]

/-- Each input has an output that it is related to. -/
theorem exists_mem_of_forall₂ {α β : Type} {related : α → β → Prop}
    {inputs : List α} {outputs : List β}
    (each : List.Forall₂ related inputs outputs) {input : α}
    (member : input ∈ inputs) : ∃ output ∈ outputs, related input output := by
  induction each with
  | nil => exact absurd member List.not_mem_nil
  | cons head _ inductionHypothesis =>
    rcases List.mem_cons.mp member with rfl | inRest
    · exact ⟨_, List.mem_cons_self, head⟩
    · obtain ⟨output, outputMember, both⟩ := inductionHypothesis inRest
      exact ⟨output, List.mem_cons_of_mem _ outputMember, both⟩

/-- Each input of a successful map has its output. -/
theorem exists_mem_of_mapM_eq_ok {ε α β : Type} {f : α → Except ε β}
    {inputs : List α} {outputs : List β} (mapped : inputs.mapM f = .ok outputs)
    {input : α} (member : input ∈ inputs) :
    ∃ output ∈ outputs, f input = .ok output :=
  exists_mem_of_forall₂ (mapM_eq_ok_iff.mp mapped) member

/-- Over a range two functions need not agree past an element that fails. -/
theorem mapM_range_congr {ε β : Type} {f g : ℕ → Except ε β} {n : ℕ}
    (same : ∀ index < n,
      (∀ earlier < index, ∃ output, f earlier = .ok output) →
        f index = g index) :
    (List.range n).mapM f = (List.range n).mapM g := by
  induction n with
  | zero => rfl
  | succ n inductionHypothesis =>
    rw [List.range_succ, List.mapM_append, List.mapM_append,
      inductionHypothesis fun index below => same index (by omega)]
    cases mapped : (List.range n).mapM g with
    | error fault => rfl
    | ok outputs =>
      rw [← inductionHypothesis fun index below => same index (by omega)]
        at mapped
      have last : f n = g n := by
        refine same n (by omega) fun earlier below => ?_
        obtain ⟨output, -, outputEq⟩ :=
          exists_mem_of_mapM_eq_ok mapped (List.mem_range.mpr below)
        exact ⟨output, outputEq⟩
      rw [List.mapM_cons, List.mapM_cons, last]
      rfl

/-- Each element of a mapped list comes from an input. -/
theorem exists_mem_of_mem_mapM {ε α β : Type} {f : α → Except ε β}
    {inputs : List α} {outputs : List β} (mapped : inputs.mapM f = .ok outputs)
    {output : β} (member : output ∈ outputs) :
    ∃ input ∈ inputs, f input = .ok output :=
  exists_mem_of_forall₂ (mapM_eq_ok_iff.mp mapped).flip member

/-- Each position of a mapped list comes from the same position of the
inputs. -/
theorem getElem?_of_mapM {ε α β : Type} {f : α → Except ε β}
    {inputs : List α} {outputs : List β} (mapped : inputs.mapM f = .ok outputs)
    {position : ℕ} {output : β} (found : outputs[position]? = some output) :
    ∃ input, inputs[position]? = some input ∧ f input = .ok output := by
  have related := mapM_eq_ok_iff.mp mapped
  obtain ⟨inside, rfl⟩ := List.getElem?_eq_some_iff.mp found
  have inInputs : position < inputs.length := by rwa [related.length_eq]
  exact ⟨inputs[position], List.getElem?_eq_getElem inInputs,
    (List.forall₂_iff_get.mp related).2 position inInputs inside⟩

/-- A mapped list fails at one of its elements. -/
theorem exists_of_mapM_eq_error {ε α β : Type} {f : α → Except ε β}
    {inputs : List α} {fault : ε} (failed : inputs.mapM f = .error fault) :
    ∃ input ∈ inputs, f input = .error fault := by
  induction inputs with
  | nil => contradiction
  | cons input inputs inductionHypothesis =>
    rw [List.mapM_cons, bind_eq_error_iff] at failed
    rcases failed with headFailed | ⟨head, -, rest⟩
    · exact ⟨input, List.mem_cons_self, headFailed⟩
    · rcases bind_eq_error_iff.mp rest with tailFailed | ⟨tail, -, impossible⟩
      · obtain ⟨other, member, otherEq⟩ := inductionHypothesis tailFailed
        exact ⟨other, List.mem_cons_of_mem _ member, otherEq⟩
      · contradiction

/-- A loop of checks succeeds when each check does. -/
theorem forM_eq_ok_iff {ε α : Type} {check : α → Except ε Unit}
    {elements : List α} :
    elements.forM check = .ok () ↔
      ∀ element ∈ elements, check element = .ok () := by
  induction elements with
  | nil => exact iff_of_true rfl nofun
  | cons element elements inductionHypothesis =>
    change (check element >>= fun _ => elements.forM check) = _ ↔ _
    rw [bind_eq_ok_iff, List.forall_mem_cons, inductionHypothesis]
    constructor
    · rintro ⟨_, head, tail⟩
      exact ⟨head, tail⟩
    · rintro ⟨head, tail⟩
      exact ⟨(), head, tail⟩

/-! ## Computations that succeed -/

/-- The function returns a value. -/
def Succeeds {α : Type} (result : Result α) : Prop :=
  ∃ value, result = .ok value

section Succeeds

variable {α β : Type}

instance (result : Result α) : Decidable (Succeeds result) :=
  match result with
  | .ok value => .isTrue ⟨value, rfl⟩
  | .error _ => .isFalse nofun

@[simp] theorem succeeds_ok (value : α) : Succeeds (.ok value) :=
  ⟨value, rfl⟩

@[simp] theorem succeeds_pure (value : α) : Succeeds (pure value) :=
  ⟨value, rfl⟩

@[simp] theorem not_succeeds_error (fault : Fault) :
    ¬Succeeds (.error fault : Result α) :=
  nofun

@[simp] theorem not_succeeds_throw (fault : Fault) :
    ¬Succeeds (throw fault : Result α) :=
  nofun

/-- A sequence succeeds when its second part does for the value of the first. -/
theorem succeeds_bind_iff_exists {first : Result α} {next : α → Result β} :
    Succeeds (first >>= next) ↔
      ∃ value, first = .ok value ∧ Succeeds (next value) := by
  cases first with
  | error fault => exact iff_of_false nofun fun ⟨_, same, _⟩ => nomatch same
  | ok value =>
    exact ⟨fun succeeds => ⟨value, rfl, succeeds⟩,
      fun ⟨_, same, succeeds⟩ => Except.ok.inj same ▸ succeeds⟩

/-- A second part whose success does not depend on the first value. -/
theorem succeeds_bind_iff {first : Result α} {next : α → Result β} {P : Prop}
    (nextIff : ∀ value, first = .ok value → (Succeeds (next value) ↔ P)) :
    Succeeds (first >>= next) ↔ Succeeds first ∧ P := by
  cases first with
  | error fault => exact iff_of_false nofun fun both => nomatch both.1
  | ok value => exact (nextIff value rfl).trans (by simp)

@[simp] theorem succeeds_bind_pure {first : Result α} {f : α → β} :
    Succeeds (first >>= fun value => pure (f value)) ↔ Succeeds first := by
  rw [succeeds_bind_iff fun value _ => iff_true_intro (succeeds_pure _),
    and_true]

/-- A computation behind a check. -/
@[simp] theorem succeeds_ite_throw {rejected : Prop} [Decidable rejected]
    {fault : Fault} {result : Result α} :
    Succeeds (if rejected then throw fault else result) ↔
      ¬rejected ∧ Succeeds result := by
  split_ifs with isRejected <;> simp [isRejected]

/-- A map succeeds when it does for every input. -/
theorem succeeds_mapM_iff {f : α → Result β} {inputs : List α} :
    Succeeds (inputs.mapM f) ↔ ∀ input ∈ inputs, Succeeds (f input) := by
  induction inputs with
  | nil => exact iff_of_true ⟨[], rfl⟩ nofun
  | cons input inputs inductionHypothesis =>
    rw [List.mapM_cons, List.forall_mem_cons, ← inductionHypothesis]
    exact succeeds_bind_iff fun _ _ => succeeds_bind_pure

/-- A loop of checks succeeds when every check does. -/
theorem succeeds_forM_iff {check : α → Result Unit} {elements : List α} :
    Succeeds (elements.forM check) ↔
      ∀ element ∈ elements, Succeeds (check element) :=
  ⟨fun ⟨_, checked⟩ element member =>
      ⟨(), forM_eq_ok_iff.mp checked element member⟩,
    fun each => ⟨(), forM_eq_ok_iff.mpr fun element member =>
      (each element member).choose_spec⟩⟩

end Succeeds

/-! ## Faults that a computation can have -/

/-- Every fault of the computation is an allowed one. -/
def FaultsIn {α : Type} (allowed : Fault → Prop) (result : Result α) : Prop :=
  ∀ fault, result = .error fault → allowed fault

namespace FaultsIn

variable {α β : Type} {allowed : Fault → Prop}

theorem ok (value : α) : FaultsIn allowed (.ok value) := by
  intro fault failed
  contradiction

theorem error {fault : Fault} (isAllowed : allowed fault) :
    FaultsIn allowed (.error fault : Result α) := by
  intro other failed
  rwa [← Except.error.inj failed]

/-- The second part of a sequence only sees values of the first. -/
theorem bind_of_ok {first : Result α} {next : α → Result β}
    (firstFaults : FaultsIn allowed first)
    (nextFaults : ∀ value, first = .ok value → FaultsIn allowed (next value)) :
    FaultsIn allowed (first >>= next) := by
  intro fault failed
  rcases bind_eq_error_iff.mp failed with firstFailed | ⟨value, found, nextFailed⟩
  · exact firstFaults fault firstFailed
  · exact nextFaults value found fault nextFailed

/-- A sequence fails with an allowed fault if both of its parts do. -/
theorem bind {first : Result α} {next : α → Result β}
    (firstFaults : FaultsIn allowed first)
    (nextFaults : ∀ value, FaultsIn allowed (next value)) :
    FaultsIn allowed (first >>= next) :=
  bind_of_ok firstFaults fun value _ => nextFaults value

/-- A map fails with an allowed fault if it does for each element. -/
theorem mapM {ι : Type} {f : ι → Result α} {elements : List ι}
    (eachFaults : ∀ element ∈ elements, FaultsIn allowed (f element)) :
    FaultsIn allowed (elements.mapM f) := by
  intro fault failed
  obtain ⟨element, member, elementFailed⟩ := exists_of_mapM_eq_error failed
  exact eachFaults element member fault elementFailed

/-- A loop fails with an allowed fault if its body does for each element. -/
theorem foldlM_of_mem {ι : Type} {body : α → ι → Result α}
    {elements : List ι} (bodyFaults : ∀ element ∈ elements, ∀ value,
      FaultsIn allowed (body value element)) (value : α) :
    FaultsIn allowed (elements.foldlM body value) := by
  induction elements generalizing value with
  | nil => exact ok value
  | cons element elements inductionHypothesis =>
    have ⟨head, tail⟩ := List.forall_mem_cons.mp bodyFaults
    rw [List.foldlM_cons]
    exact bind (head value) (inductionHypothesis tail)

theorem foldlM {ι : Type} {body : α → ι → Result α}
    (bodyFaults : ∀ value element, FaultsIn allowed (body value element))
    (elements : List ι) (value : α) :
    FaultsIn allowed (elements.foldlM body value) :=
  foldlM_of_mem (fun element _ value => bodyFaults value element) value

end FaultsIn

/-- Steps that change a state and may fail, keeping the state at the failure. -/
abbrev Step (σ α : Type) := EStateM Fault σ α

namespace Step

variable {σ α β : Type}

/-- The state that is left, whether or not the step has failed. -/
def final : EStateM.Result Fault σ α → σ
  | .ok _ state => state
  | .error _ state => state

/-- The value or the fault, without the state. -/
def outcome : EStateM.Result Fault σ α → Result α
  | .ok value _ => .ok value
  | .error fault _ => .error fault

/-- A fallible computation that leaves the state alone. -/
def lift (result : Result α) : Step σ α := fun state =>
  match result with
  | .ok value => .ok value state
  | .error fault => .error fault state

/-- A change of the state that may fail, and then leaves the state alone. -/
def change (update : σ → Result σ) : Step σ Unit := fun state =>
  match update state with
  | .ok next => .ok () next
  | .error fault => .error fault state

@[simp] theorem run_pure (value : α) (state : σ) :
    (pure value : Step σ α) state = .ok value state := rfl

@[simp] theorem run_throw (fault : Fault) (state : σ) :
    (throw fault : Step σ α) state = .error fault state := rfl

@[simp] theorem run_get (state : σ) :
    (get : Step σ σ) state = .ok state state := rfl

@[simp] theorem run_set (next state : σ) :
    (set next : Step σ PUnit) state = .ok ⟨⟩ next := rfl

/-- A sequence of steps succeeds from a state when the second step does from
where the first one ends. -/
@[simp] theorem run_bind_eq_ok_iff {first : Step σ α} {next : α → Step σ β}
    {state final : σ} {result : β} :
    (first >>= next) state = .ok result final ↔
      ∃ value middle,
        first state = .ok value middle ∧ next value middle = .ok result final := by
  change EStateM.bind first next state = _ ↔ _
  unfold EStateM.bind
  cases firstRun : first state with
  | ok value middle => simp
  | error fault middle => simp

/-- A step after one that succeeds runs from where that one ends. -/
theorem run_bind_of_ok {first : Step σ α} (next : α → Step σ β)
    {state middle : σ} {value : α} (run : first state = .ok value middle) :
    (first >>= next) state = next value middle := by
  change EStateM.bind first next state = _
  rw [EStateM.bind, run]

/-- A step after one that fails is not taken. -/
theorem run_bind_of_error {first : Step σ α} (next : α → Step σ β)
    {state final : σ} {fault : Fault} (run : first state = .error fault final) :
    (first >>= next) state = .error fault final := by
  change EStateM.bind first next state = _
  rw [EStateM.bind, run]

/-- A lifted result leaves the state as it is. -/
@[simp] theorem run_lift_eq_ok_iff {result : Result α} {state final : σ}
    {value : α} :
    lift result state = .ok value final ↔
      result = .ok value ∧ state = final := by
  cases result <;> simp [lift]

@[simp] theorem lift_ok (value : α) :
    (lift (.ok value) : Step σ α) = pure value := rfl

@[simp] theorem lift_error (fault : Fault) :
    (lift (.error fault) : Step σ α) = throw fault := rfl

/-- Lifting a sequence lifts its parts. -/
theorem lift_bind (first : Result α) (next : α → Result β) :
    (lift first >>= fun value => lift (next value) : Step σ β) =
      lift (first >>= next) := by
  cases first <;> rfl

/-- A change succeeds with the changed state. -/
@[simp] theorem run_change_eq_ok_iff {update : σ → Result σ}
    {state final : σ} :
    change update state = .ok () final ↔ update state = .ok final := by
  unfold change
  cases update state <;> simp

/-- When the step succeeds from this state, it leaves the state alone. -/
def Keeps (step : Step σ α) (state : σ) : Prop :=
  ∀ value final, step state = .ok value final → final = state

theorem Keeps.throw (fault : Fault) (state : σ) :
    Keeps (throw fault : Step σ α) state :=
  fun _ _ run => nomatch run

theorem Keeps.lift (result : Result α) (state : σ) :
    Keeps (Step.lift result) state :=
  fun _ _ run => (run_lift_eq_ok_iff.mp run).2.symm

/-- A sequence keeps the state if both of its parts do. -/
theorem Keeps.bind {first : Step σ α} {next : α → Step σ β} {state : σ}
    (firstKeeps : Keeps first state)
    (nextKeeps : ∀ value, Keeps (next value) state) :
    Keeps (first >>= next) state := by
  intro result final run
  obtain ⟨value, middle, firstRun, nextRun⟩ := run_bind_eq_ok_iff.mp run
  rw [firstKeeps value middle firstRun] at nextRun
  exact nextKeeps value result final nextRun

/-- A map keeps the state if it does for every input. -/
theorem Keeps.mapM {f : α → Step σ β} {inputs : List α} {state : σ}
    (eachKeeps : ∀ input ∈ inputs, Keeps (f input) state) :
    Keeps (inputs.mapM f) state := by
  induction inputs with
  | nil => exact Keeps.lift (.ok []) state
  | cons input inputs inductionHypothesis =>
    have ⟨head, tail⟩ := List.forall_mem_cons.mp eachKeeps
    rw [List.mapM_cons]
    exact head.bind fun _ => (inductionHypothesis tail).bind
      fun _ => Keeps.lift (.ok _) state

@[simp] theorem outcome_lift (result : Result α) (state : σ) :
    outcome (Step.lift result state) = result := by
  cases result <;> rfl

/-- The outcomes of steps that keep the state follow each other without it. -/
theorem outcome_bind {first : Step σ α} {next : α → Step σ β} {state : σ}
    (firstKeeps : Keeps first state) :
    outcome ((first >>= next) state) =
      outcome (first state) >>= fun value => outcome (next value state) := by
  cases firstRun : first state with
  | error fault final =>
    rw [run_bind_of_error next firstRun]
    rfl
  | ok value final =>
    rw [run_bind_of_ok next firstRun, firstKeeps value final firstRun]
    rfl

/-- A map of steps that keep the state is one of their outcomes. -/
theorem outcome_mapM {f : α → Step σ β} {inputs : List α} {state : σ}
    (eachKeeps : ∀ input ∈ inputs, Keeps (f input) state) :
    outcome (inputs.mapM f state) =
      inputs.mapM fun input => outcome (f input state) := by
  induction inputs with
  | nil => rfl
  | cons input inputs inductionHypothesis =>
    have ⟨head, tail⟩ := List.forall_mem_cons.mp eachKeeps
    rw [List.mapM_cons, List.mapM_cons, outcome_bind head,
      ← inductionHypothesis tail]
    refine bind_congr fun value => ?_
    exact outcome_bind (Keeps.mapM tail)

end Step

/-! ## Agreement of two programs -/

section Agreement

variable {α α' β β' σ : Type}

/-- Both computations succeed with related values or both fail, unless the
first one fails in an excused way. -/
inductive Match (excused : Fault → Prop) (related : α → α' → Prop) :
    Result α → Result α' → Prop
  | excuse {fault : Fault} (isExcused : excused fault) (second : Result α') :
      Match excused related (.error fault) second
  | errors (fault fault' : Fault) :
      Match excused related (.error fault) (.error fault')
  | ok {value : α} {value' : α'} (values : related value value') :
      Match excused related (.ok value) (.ok value')

/-- A match in which nothing is excused. -/
abbrev Lockstep (related : α → α' → Prop) : Result α → Result α' → Prop :=
  Match (fun _ => False) related

/-- A match unless a conversion of the first computation is out of range. -/
abbrev Agree (related : α → α' → Prop) : Result α → Result α' → Prop :=
  Match (· = .conversion) related

namespace Match

variable {excused : Fault → Prop} {related : α → α' → Prop}
  {related' : β → β' → Prop}

theorem refl (result : Result α) : Match excused (· = ·) result result := by
  cases result with
  | error fault => exact errors fault fault
  | ok value => exact ok rfl

/-- Matching is kept when less is asked of the values. -/
theorem mono {weaker : α → α' → Prop} {first : Result α} {second : Result α'}
    (matched : Match excused related first second)
    (implies : ∀ value value', related value value' → weaker value value') :
    Match excused weaker first second := by
  cases matched with
  | excuse isExcused second => exact excuse isExcused second
  | errors fault fault' => exact errors fault fault'
  | ok values => exact ok (implies _ _ values)

theorem excusing {first : Result α} {second : Result α'}
    (lockstep : Lockstep related first second) :
    Match excused related first second := by
  cases lockstep with
  | excuse isExcused second => exact isExcused.elim
  | errors fault fault' => exact errors fault fault'
  | ok values => exact ok values

/-- Sequences match when their parts do. -/
theorem bind {first : Result α} {second : Result α'} {next : α → Result β}
    {next' : α' → Result β'} (firstMatches : Match excused related first second)
    (nextMatches : ∀ value value', related value value' →
      Match excused related' (next value) (next' value')) :
    Match excused related' (first >>= next) (second >>= next') := by
  cases firstMatches with
  | excuse isExcused second => exact excuse isExcused _
  | errors fault fault' => exact errors fault fault'
  | ok values => exact nextMatches _ _ values

/-- Sequences match when their first parts give the same values. -/
theorem bind_eq {first second : Result α} {next : α → Result β}
    {next' : α → Result β'} (firstMatches : Match excused (· = ·) first second)
    (nextMatches : ∀ value,
      Match excused related' (next value) (next' value)) :
    Match excused related' (first >>= next) (second >>= next') := by
  refine firstMatches.bind fun value _ same => ?_
  subst same
  exact nextMatches value

/-- The second computation has already come to its value. -/
theorem bind_value {first : Result α} {value' : α'} {next : α → Result β}
    {second : Result β'} (firstMatches : Match excused related first (.ok value'))
    (nextMatches : ∀ value, related value value' →
      Match excused related' (next value) second) :
    Match excused related' (first >>= next) second := by
  cases firstMatches with
  | excuse isExcused _ => exact excuse isExcused _
  | ok values => exact nextMatches _ values

/-- Two loops match when their bodies keep the relation of the accumulators. -/
theorem foldlM {ι ι' : Type} {body : α → ι → Result α}
    {body' : α' → ι' → Result α'} {elements : List ι} {elements' : List ι'}
    (bodies : List.Forall₂ (fun element element' => ∀ value value',
      related value value' →
        Match excused related (body value element) (body' value' element'))
      elements elements')
    {value : α} {value' : α'} (values : related value value') :
    Match excused related (elements.foldlM body value)
      (elements'.foldlM body' value') := by
  induction bodies generalizing value value' with
  | nil => exact ok values
  | cons head _ inductionHypothesis =>
    rw [List.foldlM_cons, List.foldlM_cons]
    exact bind (head _ _ values) fun _ _ => inductionHypothesis

/-- Two loops over the same elements match when their bodies do. -/
theorem foldlM_eq {ι : Type} {body body' : α → ι → Result α}
    {elements : List ι} (bodies : ∀ element ∈ elements, ∀ value,
      Match excused (· = ·) (body value element) (body' value element))
    (value : α) :
    Match excused (· = ·) (elements.foldlM body value)
      (elements.foldlM body' value) := by
  refine foldlM (List.forall₂_same.mpr fun element member value _ same => ?_)
    rfl
  subst same
  exact bodies element member value

/-- Two maps match when they match position by position. -/
theorem mapM {ι ι' : Type} {f : ι → Result α} {f' : ι' → Result α'}
    {elements : List ι} {elements' : List ι'}
    (bodies : List.Forall₂ (fun element element' =>
      Match excused related (f element) (f' element')) elements elements') :
    Match excused (List.Forall₂ related) (elements.mapM f)
      (elements'.mapM f') := by
  induction bodies with
  | nil => exact ok .nil
  | cons head _ inductionHypothesis =>
    rw [List.mapM_cons, List.mapM_cons]
    exact bind head fun _ _ values => bind inductionHypothesis
      fun _ _ rest => ok (.cons values rest)

/-- Results that match up to equality have the same values, if no fault is
excused. -/
theorem eq_ok_iff {first second : Result α}
    (matched : Match excused (· = ·) first second)
    (notExcused : ∀ fault, first = .error fault → ¬excused fault) (value : α) :
    first = .ok value ↔ second = .ok value := by
  cases matched with
  | excuse isExcused second => exact absurd isExcused (notExcused _ rfl)
  | errors fault fault' => simp
  | ok values => rw [values]

/-- The second computation succeeds with a related value when the first one
does. -/
theorem ok_of_ok {first : Result α} {second : Result α'} {value : α}
    (matched : Match excused related first second)
    (succeeds : first = .ok value) :
    ∃ value', second = .ok value' ∧ related value value' := by
  rw [succeeds] at matched
  cases matched with
  | ok values => exact ⟨_, rfl, values⟩

end Match

theorem Agree.conversion {related : α → α' → Prop} (second : Result α') :
    Agree related (throw .conversion) second :=
  @Match.excuse _ _ (· = .conversion) related .conversion rfl second

/-- Two results in lockstep both succeed or both fail. -/
theorem Lockstep.succeeds_iff {related : α → α' → Prop} {first : Result α}
    {second : Result α'} (lockstep : Lockstep related first second) :
    Succeeds first ↔ Succeeds second := by
  cases lockstep with
  | excuse isExcused second => exact isExcused.elim
  | errors fault fault' => exact iff_of_false nofun nofun
  | ok values => exact iff_of_true ⟨_, rfl⟩ ⟨_, rfl⟩

/-- Any values that the two computations come to are related. -/
def Aligned (related : α → α' → Prop) (first : Result α)
    (second : Result α') : Prop :=
  ∀ value value', first = .ok value → second = .ok value' →
    related value value'

namespace Aligned

variable {related : α → α' → Prop} {related' : β → β' → Prop}

/-- Related values are aligned. -/
theorem ok {value : α} {value' : α'} (values : related value value') :
    Aligned related (.ok value) (.ok value') := by
  intro first second same same'
  rw [← Except.ok.inj same, ← Except.ok.inj same']
  exact values

theorem throw (fault : Fault) (second : Result α') :
    Aligned related (throw fault) second :=
  fun _ _ same => nomatch same

/-- Sequences are aligned when their parts are. -/
theorem bind {first : Result α} {second : Result α'} {next : α → Result β}
    {next' : α' → Result β'} (firstAligned : Aligned related first second)
    (nextAligned : ∀ value value', related value value' →
      Aligned related' (next value) (next' value')) :
    Aligned related' (first >>= next) (second >>= next') := by
  intro result result' run run'
  obtain ⟨value, firstEq, nextEq⟩ := bind_eq_ok_iff.mp run
  obtain ⟨value', secondEq, nextEq'⟩ := bind_eq_ok_iff.mp run'
  exact nextAligned value value'
    (firstAligned value value' firstEq secondEq) result result' nextEq nextEq'

/-- Sequences are aligned when their first parts give the same values. -/
theorem bind_eq {first second : Result α} {next : α → Result β}
    {next' : α → Result β'} (firstAligned : Aligned (· = ·) first second)
    (nextAligned : ∀ value, Aligned related' (next value) (next' value)) :
    Aligned related' (first >>= next) (second >>= next') := by
  refine firstAligned.bind fun value _ same => ?_
  subst same
  exact nextAligned value

/-- Both start with the same computation. -/
theorem bind_same {first : Result α} {next : α → Result β}
    {next' : α → Result β'}
    (nextAligned : ∀ value, Aligned related' (next value) (next' value)) :
    Aligned related' (first >>= next) (first >>= next') :=
  bind_eq (fun _ _ same same' => Except.ok.inj (same.symm.trans same'))
    nextAligned

/-- Maps are aligned when they are for each pair of elements. -/
theorem mapM {ι ι' : Type} {f : ι → Result α} {f' : ι' → Result α'}
    {elements : List ι} {elements' : List ι'}
    (bodies : List.Forall₂ (fun element element' =>
      Aligned related (f element) (f' element')) elements elements') :
    Aligned (List.Forall₂ related) (elements.mapM f) (elements'.mapM f') := by
  induction bodies with
  | nil => exact ok .nil
  | cons head _ inductionHypothesis =>
    rw [List.mapM_cons, List.mapM_cons]
    exact bind head fun _ _ values => bind inductionHypothesis
      fun _ _ rest => ok (.cons values rest)

end Aligned

/-- Results in lockstep are aligned. -/
theorem Lockstep.aligned {related : α → α' → Prop} {first : Result α}
    {second : Result α'} (lockstep : Lockstep related first second) :
    Aligned related first second := by
  cases lockstep with
  | excuse isExcused second => exact isExcused.elim
  | errors fault fault' => exact .throw fault _
  | ok values => exact .ok values

/-- Lockstep reads the same from the other side. -/
theorem Lockstep.symm {related : α → α' → Prop} {first : Result α}
    {second : Result α'} (lockstep : Lockstep related first second) :
    Lockstep (fun value' value => related value value') second first := by
  cases lockstep with
  | excuse isExcused second => exact isExcused.elim
  | errors fault fault' => exact .errors fault' fault
  | ok values => exact .ok values

namespace Step

/-- Agreement of what two steps leave behind: the states are equal as well. -/
inductive AgreeAt (related : α → α' → Prop) :
    EStateM.Result Fault σ α → EStateM.Result Fault σ α' → Prop
  | outOfRange (final : σ) (second : EStateM.Result Fault σ α') :
      AgreeAt related (.error .conversion final) second
  | errors (fault fault' : Fault) (final final' : σ) :
      AgreeAt related (.error fault final) (.error fault' final')
  | ok {value : α} {value' : α'} (values : related value value')
      (final : σ) : AgreeAt related (.ok value final) (.ok value' final)

theorem AgreeAt.lift_bind {related : α → α' → Prop} {related' : β → β' → Prop}
    {first : Result α} {second : Result α'} {next : α → Step σ β}
    {next' : α' → Step σ β'} {state : σ}
    (agree : VirtualPeople.Agree related first second)
    (nextAgree : ∀ value value', first = .ok value → related value value' →
      AgreeAt related' (next value state) (next' value' state)) :
    AgreeAt related' ((Step.lift first >>= next) state)
      ((Step.lift second >>= next') state) := by
  cases agree with
  | excuse isConversion second =>
    rw [isConversion]
    exact .outOfRange state _
  | errors fault fault' => exact .errors fault fault' state state
  | ok values => exact nextAgree _ _ rfl values

/-- Agreement from every state. -/
def Agree (related : α → α' → Prop) (first : Step σ α) (second : Step σ α') :
    Prop :=
  ∀ state, AgreeAt related (first state) (second state)

/-- Agreement from every state of a set. -/
def AgreeOn (served : σ → Prop) (related : α → α' → Prop) (first : Step σ α)
    (second : Step σ α') : Prop :=
  ∀ state, served state → AgreeAt related (first state) (second state)

/-- Where the step succeeds from a state of the set, it leaves one. -/
def StaysIn (served : σ → Prop) (step : Step σ α) : Prop :=
  ∀ state value final, served state → step state = .ok value final →
    served final

/-- What agrees on all states agrees on some of them. -/
theorem Agree.on {related : α → α' → Prop} {first : Step σ α}
    {second : Step σ α'} (agree : Agree related first second)
    (served : σ → Prop) : AgreeOn served related first second :=
  fun state _ => agree state

/-- A loop stays in the set when its bodies do. -/
theorem StaysIn.forM {served : σ → Prop} {ι : Type} {body : ι → Step σ Unit}
    {elements : List ι}
    (stays : ∀ element ∈ elements, (body element).StaysIn served) :
    (elements.forM body).StaysIn served := by
  induction elements with
  | nil =>
    intro state value final isServed run
    cases run
    exact isServed
  | cons element elements inductionHypothesis =>
    have ⟨head, tail⟩ := List.forall_mem_cons.mp stays
    intro state value final isServed run
    obtain ⟨_, middle, firstRun, rest⟩ := run_bind_eq_ok_iff.mp run
    exact inductionHypothesis tail middle value final
      (head state _ middle isServed firstRun) rest

namespace AgreeOn

variable {served : σ → Prop} {related : α → α' → Prop}
  {related' : β → β' → Prop}

/-- Sequences agree on the served states if the first step does not leave them. -/
theorem bind {first : Step σ α} {second : Step σ α'} {next : α → Step σ β}
    {next' : α' → Step σ β'} (agree : AgreeOn served related first second)
    (stays : first.StaysIn served)
    (nextAgree : ∀ value value', related value value' →
      AgreeOn served related' (next value) (next' value')) :
    AgreeOn served related' (first >>= next) (second >>= next') := by
  intro state isServed
  change AgreeAt related' (EStateM.bind first next state)
    (EStateM.bind second next' state)
  unfold EStateM.bind
  have outcomes := agree state isServed
  have middle := fun value final => stays state value final isServed
  generalize first state = firstOutcome at outcomes middle ⊢
  generalize second state = secondOutcome at outcomes ⊢
  cases outcomes with
  | outOfRange final second => exact .outOfRange _ _
  | errors fault fault' final final' => exact .errors _ _ _ _
  | ok values final =>
    exact nextAgree _ _ values final (middle _ final rfl)

/-- Changes agree on the served states when their updates do. -/
theorem change {update update' : σ → Result σ}
    (agree : ∀ state, served state →
      VirtualPeople.Agree (· = ·) (update state) (update' state)) :
    AgreeOn served (· = ·) (Step.change update) (Step.change update') := by
  intro state isServed
  unfold Step.change
  have outcomes := agree state isServed
  generalize update state = first at outcomes ⊢
  generalize update' state = second at outcomes ⊢
  cases outcomes with
  | excuse isConversion second =>
    rw [isConversion]
    exact .outOfRange _ _
  | errors fault fault' => exact .errors _ _ _ _
  | @ok value value' same =>
    rw [same]
    exact .ok rfl value'

/-- Loops agree on the served states if their bodies do and do not leave them. -/
theorem forM {ι ι' : Type} {body : ι → Step σ Unit} {body' : ι' → Step σ Unit}
    {elements : List ι} {elements' : List ι'}
    (bodies : List.Forall₂ (fun element element' =>
      AgreeOn served (· = ·) (body element) (body' element'))
        elements elements')
    (stays : ∀ element ∈ elements, (body element).StaysIn served) :
    AgreeOn served (· = ·) (elements.forM body) (elements'.forM body') := by
  induction bodies with
  | nil => exact fun state _ => .ok rfl state
  | cons head _ inductionHypothesis =>
    have ⟨headStays, tailStays⟩ := List.forall_mem_cons.mp stays
    exact head.bind headStays fun _ _ _ => inductionHypothesis tailStays

end AgreeOn

end Step

end Agreement

end VirtualPeople
