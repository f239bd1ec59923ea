import Mathlib.Logic.Relation

/-!
# State machines

A state machine has initial states and a partial step under an action; an action that is
not enabled has no step.  An invariant is shown once for the initial states and once for
every step, and then holds in every reachable state.
-/

namespace Cllama.Library

universe u v w

/-- A state machine.  Interleavings of several parties are sequences of their actions. -/
structure Machine (σ : Type u) (α : Type v) where
  Initial : σ → Prop
  step : σ → α → Option σ

namespace Machine

variable {σ : Type u} {α : Type v} (machine : Machine σ α)

/-- Some action leads from the one state to the other. -/
def Moves (state next : σ) : Prop :=
  ∃ action, machine.step state action = some next

/-- Some sequence of actions leads from the one state to the other. -/
def Reaches : σ → σ → Prop :=
  Relation.ReflTransGen machine.Moves

def Reachable (state : σ) : Prop :=
  ∃ start, machine.Initial start ∧ machine.Reaches start state

/-- Perform actions one after another. -/
def run (state : σ) (actions : List α) : Option σ :=
  actions.foldlM machine.step state

/-- All steps of a run meet a condition. -/
def Along (fits : σ → α → Prop) : σ → List α → Prop
  | _, [] => True
  | state, action :: actions =>
      ∀ next, machine.step state action = some next →
        fits state action ∧ Along fits next actions

/-- A predicate that holds initially and that every step preserves. -/
structure Invariant (holds : σ → Prop) : Prop where
  initial : ∀ state, machine.Initial state → holds state
  step : ∀ state action next, holds state → machine.step state action = some next → holds next

variable {machine}

theorem reaches_of_run {state next : σ} {actions : List α}
    (ran : machine.run state actions = some next) : machine.Reaches state next := by
  induction actions generalizing state with
  | nil =>
      cases ran
      exact .refl
  | cons action actions ih =>
      rw [run, List.foldlM_cons] at ran
      cases taken : machine.step state action with
      | none =>
          rw [taken] at ran
          cases ran
      | some middle =>
          rw [taken] at ran
          exact .head ⟨action, taken⟩ (ih ran)

/-- The state in which a run ends can be reached. -/
theorem reachable_getD {start : σ} (initial : machine.Initial start) {actions : List α}
    (runs : (machine.run start actions).isSome = true) :
    machine.Reachable ((machine.run start actions).getD start) := by
  rcases Option.isSome_iff_exists.mp runs with ⟨last, ran⟩
  rw [ran]
  exact ⟨start, initial, reaches_of_run ran⟩

theorem Invariant.of_reaches {holds : σ → Prop} (invariant : machine.Invariant holds)
    {state next : σ} (before : holds state) (reaches : machine.Reaches state next) :
    holds next := by
  induction reaches with
  | refl => exact before
  | tail _ moves ih =>
      rcases moves with ⟨action, taken⟩
      exact invariant.step _ action _ ih taken

/-- An invariant holds in every reachable state. -/
theorem Invariant.of_reachable {holds : σ → Prop} (invariant : machine.Invariant holds)
    {state : σ} (reachable : machine.Reachable state) : holds state := by
  rcases reachable with ⟨start, initial, reaches⟩
  exact invariant.of_reaches (invariant.initial start initial) reaches

/-- If a condition is what a safe state needs to be followed by a safe one, it is what a run
needs to stay in safe states. -/
theorem safe_iff_along {safe : σ → Prop} {fits : σ → α → Prop}
    (step_iff : ∀ state action next, safe state → machine.step state action = some next →
      (safe next ↔ fits state action))
    {state : σ} (start : safe state) {actions : List α} :
    (∀ past next, past <+: actions → machine.run state past = some next → safe next) ↔
      machine.Along fits state actions := by
  induction actions generalizing state with
  | nil =>
      apply iff_of_true _ trivial
      intro past next isPrefix ran
      rw [List.prefix_nil.mp isPrefix] at ran
      cases ran
      exact start
  | cons action actions ih =>
      constructor
      · intro stays next taken
        have after : safe next := by
          apply stays [action] next (List.prefix_append [action] actions)
          simp [run, taken]
        constructor
        · exact (step_iff state action next start taken).mp after
        · apply (ih after).mp
          intro past final isPrefix ran
          apply stays (action :: past) final (List.cons_prefix_cons.mpr ⟨rfl, isPrefix⟩)
          rw [run, List.foldlM_cons, taken]
          exact ran
      · intro meets past final isPrefix ran
        cases past with
        | nil =>
            cases ran
            exact start
        | cons first past =>
            rcases List.cons_prefix_cons.mp isPrefix with ⟨rfl, restPrefix⟩
            rw [run, List.foldlM_cons] at ran
            cases taken : machine.step state first with
            | none =>
                rw [taken] at ran
                cases ran
            | some next =>
                rw [taken] at ran
                rcases meets next taken with ⟨fit, rest⟩
                have after := (step_iff state first next start taken).mpr fit
                exact (ih after).mpr rest past final restPrefix ran

/-- What every step keeps, once a condition holds that the steps keep too, is the same in
all later states. -/
theorem Reaches.unchanged {β : Type w} (holds : σ → Prop) (view : σ → β)
    (keeps : ∀ state action next, holds state → machine.step state action = some next →
      holds next ∧ view next = view state)
    {state next : σ} (before : holds state) (reaches : machine.Reaches state next) :
    view next = view state := by
  have both : holds next ∧ view next = view state := by
    induction reaches with
    | refl => exact ⟨before, rfl⟩
    | tail _ moves ih =>
        rcases moves with ⟨action, taken⟩
        rcases keeps _ action _ ih.1 taken with ⟨after, same⟩
        exact ⟨after, same.trans ih.2⟩
  exact both.2

end Machine

end Cllama.Library
