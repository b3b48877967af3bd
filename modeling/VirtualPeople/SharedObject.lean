import VirtualPeople.Outcome

/-!
# Calls on a shared object

Any number of threads call an operation of one object.  A lock makes each run of
the operation one step, and between these steps calls begin in any order.  When
an invariant of the object decides what the operation returns, every call gets
that reply, whatever the other calls do.
-/

namespace VirtualPeople

/-- A call waits for the lock, or the operation has run for it. -/
inductive Call (Request Reply : Type)
  | waiting (request : Request)
  | answered (request : Request) (reply : Result Reply)

/-- The object, and the calls of all threads in the order they began. -/
structure SharedObject (σ Request Reply : Type) where
  state : σ
  calls : List (Call Request Reply)

namespace SharedObject

variable {σ Request Reply : Type}

/-- No call has begun. -/
def start (state : σ) : SharedObject σ Request Reply where
  state := state
  calls := []

variable (operation : Request → Step σ Reply)

/-- A thread begins a call, or the operation runs for a call that waits. -/
inductive Moves :
    SharedObject σ Request Reply → SharedObject σ Request Reply → Prop
  | begin (state : σ) (calls : List (Call Request Reply)) (request : Request) :
      Moves ⟨state, calls⟩ ⟨state, calls ++ [.waiting request]⟩
  | run (state : σ) (before after : List (Call Request Reply))
      (request : Request) :
      Moves ⟨state, before ++ .waiting request :: after⟩
        ⟨Step.final (operation request state),
          before ++ .answered request (Step.outcome (operation request state)) ::
            after⟩

/-- The states of the object and its calls that moves lead to. -/
abbrev Reaches : SharedObject σ Request Reply →
    SharedObject σ Request Reply → Prop :=
  Relation.ReflTransGen (Moves operation)

variable {operation} {Invariant : σ → Prop} {answer : Request → Result Reply}

/-- The invariant holds, and every reply so far is the answer to its request. -/
structure Answers (Invariant : σ → Prop) (answer : Request → Result Reply)
    (shared : SharedObject σ Request Reply) : Prop where
  invariant : Invariant shared.state
  replies : ∀ request reply, .answered request reply ∈ shared.calls →
    reply = answer request

theorem Answers.start {state : σ} (invariant : Invariant state) :
    Answers Invariant answer (start state) where
  invariant := invariant
  replies := nofun

theorem Answers.moves
    (keeps : ∀ request state, Invariant state →
      Invariant (Step.final (operation request state)) ∧
        Step.outcome (operation request state) = answer request)
    {shared shared' : SharedObject σ Request Reply}
    (answers : Answers Invariant answer shared)
    (moves : Moves operation shared shared') :
    Answers Invariant answer shared' := by
  obtain ⟨invariant, replies⟩ := answers
  cases moves with
  | begin state calls request =>
    refine ⟨invariant, fun other reply member => replies other reply ?_⟩
    simpa using member
  | run state before after request =>
    obtain ⟨invariant', answered⟩ := keeps request state invariant
    refine ⟨invariant', fun other reply member => ?_⟩
    rcases List.mem_append.mp member with inBefore | inRest
    · exact replies other reply (List.mem_append_left _ inBefore)
    · rcases List.mem_cons.mp inRest with same | inAfter
      · obtain ⟨rfl, rfl⟩ := Call.answered.inj same
        exact answered
      · exact replies other reply
          (List.mem_append_right _ (List.mem_cons_of_mem _ inAfter))

/-- In every interleaving the calls get the answers to their requests. -/
theorem Answers.reaches
    (keeps : ∀ request state, Invariant state →
      Invariant (Step.final (operation request state)) ∧
        Step.outcome (operation request state) = answer request)
    {shared shared' : SharedObject σ Request Reply}
    (answers : Answers Invariant answer shared)
    (reaches : Reaches operation shared shared') :
    Answers Invariant answer shared' := by
  induction reaches with
  | refl => exact answers
  | tail _ moves inductionHypothesis =>
    exact inductionHypothesis.moves keeps moves

end SharedObject

end VirtualPeople
