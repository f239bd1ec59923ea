import Cllama.Library.Transition

/-!
# Monitors

Several threads change a shared state in regions under one mutex, and one of them, the
consumer, waits on a condition variable for a predicate of the state.  A wait tests the
predicate and goes to sleep in one step; a consumer that is asleep wakes only by the
notification of a later region, and then tests again.  No wake-up is lost if every region
that makes the predicate true notifies.
-/

namespace Cllama.Library

universe u v

variable {σ : Type u} {α : Type v}

/-- The consumer at its condition variable: not asleep, asleep without a notification, or
notified and not yet back under the mutex. -/
inductive Waiter where
  | awake
  | asleep
  | notified
  deriving DecidableEq

/-- The regions of all threads, which of them start with a wait of the consumer, what it
waits for, and which regions notify. -/
structure Monitor (σ : Type u) (α : Type v) where
  regions : Machine σ α
  waits : σ → α → Bool
  ready : σ → Bool
  notifies : σ → α → Bool

namespace Monitor

variable (monitor : Monitor σ α)

/-- A wait, with the region that follows it, or a region without one. -/
def step (state : σ × Waiter) (action : α) : Option (σ × Waiter) :=
  if monitor.waits state.1 action then
    if state.2 = .asleep then none
    else if monitor.ready state.1 then
      (monitor.regions.step state.1 action).map fun next => (next, .awake)
    else some (state.1, .asleep)
  else
    (monitor.regions.step state.1 action).map fun next =>
      (next, if state.2 = .asleep ∧ monitor.notifies state.1 action then .notified else state.2)

def machine : Machine (σ × Waiter) α where
  Initial state := monitor.regions.Initial state.1 ∧ state.2 = .awake
  step := monitor.step

/-- Every region that makes the predicate true notifies. -/
def Notifies : Prop :=
  ∀ state action next, monitor.waits state action = false →
    monitor.regions.step state action = some next → monitor.ready state = false →
      monitor.ready next = true → monitor.notifies state action = true

variable {monitor}

/-- A consumer that is asleep without a notification has nothing to wake up for. -/
theorem asleep_invariant (notifies : monitor.Notifies) :
    monitor.machine.Invariant fun state => state.2 = .asleep → monitor.ready state.1 = false where
  initial := by
    rintro ⟨state, waiter⟩ ⟨-, awake⟩ asleep
    rw [awake] at asleep
    cases asleep
  step := by
    rintro ⟨state, waiter⟩ action ⟨next, waiterNext⟩ before taken asleep
    cases asleep
    simp only [machine, step] at taken
    split at taken
    · split at taken
      · cases taken
      · split at taken
        next ready =>
          rcases Option.map_eq_some_iff.mp taken with ⟨after, -, same⟩
          cases same
        next unready =>
          cases taken
          exact eq_false_of_ne_true unready
    next noWait =>
      rcases Option.map_eq_some_iff.mp taken with ⟨after, stepped, same⟩
      rw [Prod.mk.injEq] at same
      rcases same with ⟨rfl, stays⟩
      split at stays
      · cases stays
      next quiet =>
        cases stays
        apply eq_false_of_ne_true
        intro ready
        have notified := notifies state action after (eq_false_of_ne_true noWait) stepped
          (before rfl) ready
        exact quiet ⟨rfl, notified⟩

end Monitor

end Cllama.Library
