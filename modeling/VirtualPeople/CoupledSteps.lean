import Mathlib.Data.List.AList
import VirtualPeople.Outcome

/-!
# Coupled steps

Two steps over states of different types, from coupled states: whenever both
succeed they return related values and leave coupled states.  Tables with the
same keys in the same order are the states that come up here.
-/

namespace VirtualPeople

variable {α α' β β' σ σ' : Type}

namespace Step

/-- From coupled states the steps come to related values and coupled states,
if both succeed. -/
def Couples (states : σ → σ' → Prop) (values : α → α' → Prop)
    (first : Step σ α) (second : Step σ' α') : Prop :=
  ∀ state state', states state state' → ∀ value value' final final',
    first state = .ok value final → second state' = .ok value' final' →
      values value value' ∧ states final final'

namespace Couples

variable {states : σ → σ' → Prop} {values : α → α' → Prop}
  {results : β → β' → Prop}

/-- Related values are coupled. -/
theorem pure {value : α} {value' : α'} (related : values value value') :
    Couples states values (Pure.pure value) (Pure.pure value') := by
  intro state state' coupled first second final final' run run'
  cases run
  cases run'
  exact ⟨related, coupled⟩

theorem throw (fault : Fault) (second : Step σ' α') :
    Couples states values (throw fault) second := by
  intro state state' _ value value' final final' run
  cases run

theorem throw_right (first : Step σ α) (fault : Fault) :
    Couples states values first (MonadExcept.throw fault) := by
  intro state state' _ value value' final final' _ run
  cases run

theorem get : Couples states states get get := by
  intro state state' coupled value value' final final' run run'
  cases run
  cases run'
  exact ⟨coupled, coupled⟩

/-- Setting related states keeps the states related. -/
theorem set {state : σ} {state' : σ'} (coupled : states state state') :
    Couples states (fun _ _ => True) (set state) (set state') := by
  intro _ _ _ value value' final final' run run'
  cases run
  cases run'
  exact ⟨trivial, coupled⟩

/-- Sequences of coupled steps are coupled. -/
theorem bind {first : Step σ α} {second : Step σ' α'} {next : α → Step σ β}
    {next' : α' → Step σ' β'} (firstCouples : Couples states values first second)
    (nextCouples : ∀ value value', values value value' →
      Couples states results (next value) (next' value')) :
    Couples states results (first >>= next) (second >>= next') := by
  intro state state' coupled result result' final final' run run'
  obtain ⟨value, middle, firstRun, nextRun⟩ := run_bind_eq_ok_iff.mp run
  obtain ⟨value', middle', firstRun', nextRun'⟩ := run_bind_eq_ok_iff.mp run'
  obtain ⟨related, between⟩ := firstCouples state state' coupled value value'
    middle middle' firstRun firstRun'
  exact nextCouples value value' related middle middle' between result result'
    final final' nextRun nextRun'

/-- Aligned results are coupled when they are lifted. -/
theorem lift {first : Result α} {second : Result α'}
    (aligned : Aligned values first second) :
    Couples states values (Step.lift first) (Step.lift second) := by
  intro state state' coupled value value' final final' run run'
  obtain ⟨firstEq, rfl⟩ := run_lift_eq_ok_iff.mp run
  obtain ⟨secondEq, rfl⟩ := run_lift_eq_ok_iff.mp run'
  exact ⟨aligned value value' firstEq secondEq, coupled⟩

/-- Maps are coupled when they are for each pair of elements. -/
theorem mapM {ι ι' : Type} {f : ι → Step σ α} {f' : ι' → Step σ' α'}
    {elements : List ι} {elements' : List ι'}
    (bodies : List.Forall₂ (fun element element' =>
      Couples states values (f element) (f' element')) elements elements') :
    Couples states (List.Forall₂ values) (elements.mapM f)
      (elements'.mapM f') := by
  induction bodies with
  | nil => exact pure .nil
  | cons head _ inductionHypothesis =>
    rw [List.mapM_cons, List.mapM_cons]
    exact head.bind fun _ _ related => inductionHypothesis.bind
      fun _ _ rest => pure (.cons related rest)

/-- Loops are coupled when their bodies are. -/
theorem foldlM {ι : Type} {f : α → ι → Step σ α} {f' : α' → ι → Step σ' α'}
    {elements : List ι}
    (bodies : ∀ element ∈ elements, ∀ value value', values value value' →
      Couples states values (f value element) (f' value' element))
    {start : α} {start' : α'} (related : values start start') :
    Couples states values (elements.foldlM f start)
      (elements.foldlM f' start') := by
  induction elements generalizing start start' with
  | nil => exact pure related
  | cons element elements inductionHypothesis =>
    have ⟨head, tail⟩ := List.forall_mem_cons.mp bodies
    rw [List.foldlM_cons, List.foldlM_cons]
    exact (head start start' related).bind fun _ _ => inductionHypothesis tail

/-- The outcomes of coupled steps are aligned. -/
theorem outcome {first : Step σ α} {second : Step σ' α'}
    (couples : Couples states values first second) {state : σ} {state' : σ'}
    (coupled : states state state') :
    Aligned values (Step.outcome (first state)) (Step.outcome (second state')) := by
  have both := couples state state' coupled
  intro value value' succeeds succeeds'
  generalize first state = run at both succeeds
  generalize second state' = run' at both succeeds'
  cases run with
  | error fault final => cases succeeds
  | ok result final =>
    cases run' with
    | error fault final => cases succeeds'
    | ok result' final' =>
      cases succeeds
      cases succeeds'
      exact (both _ _ _ _ rfl rfl).1

end Couples

end Step

/-! ## Tables with the same keys -/

section Tables

variable {Key : Type} [DecidableEq Key] {related : α → α' → Prop}
  {table : AList fun _ : Key => α} {table' : AList fun _ : Key => α'}

/-- The tables have the same keys in the same order, with related values. -/
def SameKeys (related : α → α' → Prop) (table : AList fun _ : Key => α)
    (table' : AList fun _ : Key => α') : Prop :=
  List.Forall₂ (fun entry entry' =>
    entry.1 = entry'.1 ∧ related entry.2 entry'.2) table.entries table'.entries

namespace SameKeys

omit [DecidableEq Key] in
theorem empty : SameKeys related (∅ : AList fun _ : Key => α)
    (∅ : AList fun _ : Key => α') :=
  List.Forall₂.nil

omit [DecidableEq Key] in
/-- Tables with the same keys are both empty or both not. -/
theorem isEmpty_eq (same : SameKeys related table table') :
    table.entries.isEmpty = table'.entries.isEmpty := by
  have sameLength := List.Forall₂.length_eq same
  rw [Bool.eq_iff_iff, List.isEmpty_iff_length_eq_zero,
    List.isEmpty_iff_length_eq_zero, sameLength]

/-- Tables with the same keys have related values under a key, or none. -/
theorem lookup (same : SameKeys related table table') (key : Key) :
    Option.Rel related (table.lookup key) (table'.lookup key) := by
  unfold SameKeys at same
  unfold AList.lookup
  generalize table.entries = entries at same ⊢
  generalize table'.entries = entries' at same ⊢
  induction same with
  | nil => exact .none
  | @cons entry entry' rest rest' head _ inductionHypothesis =>
    obtain ⟨held, value⟩ := entry
    obtain ⟨held', value'⟩ := entry'
    obtain ⟨rfl, values⟩ := head
    by_cases here : key = held
    · subst here
      rw [List.dlookup_cons_eq, List.dlookup_cons_eq]
      exact .some values
    · rw [List.dlookup_cons_ne _ _ here, List.dlookup_cons_ne _ _ here]
      exact inductionHypothesis

/-- Erasing a key leaves the same keys. -/
theorem erase (same : SameKeys related table table') (key : Key) :
    SameKeys related (table.erase key) (table'.erase key) := by
  unfold SameKeys at same ⊢
  change List.Forall₂ _ (table.entries.kerase key) (table'.entries.kerase key)
  generalize table.entries = entries at same ⊢
  generalize table'.entries = entries' at same ⊢
  induction same with
  | nil => exact .nil
  | @cons entry entry' rest rest' head tail inductionHypothesis =>
    by_cases here : key = entry.1
    · rw [List.kerase_cons_eq here, List.kerase_cons_eq (here.trans head.1)]
      exact tail
    · rw [List.kerase_cons_ne here,
        List.kerase_cons_ne fun there => here (there.trans head.1.symm)]
      exact .cons head inductionHypothesis

/-- Inserting related values leaves the same keys. -/
theorem insert (same : SameKeys related table table') (key : Key) {value : α}
    {value' : α'} (values : related value value') :
    SameKeys related (table.insert key value) (table'.insert key value') :=
  .cons ⟨rfl, values⟩ (same.erase key)

end SameKeys

end Tables

end VirtualPeople
