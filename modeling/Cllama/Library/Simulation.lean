import Cllama.Library.Transition

/-!
# Simulations

A machine simulates another one if every step of the other is matched by some steps of its own.
What holds of the states of the one then holds, seen through the simulation, of the states of the
other.
-/

namespace Cllama.Library.Machine

universe u v

variable {σ τ : Type u} {α β : Type v}

/-- Every step of the concrete machine is matched by steps of the abstract one, from an image of
its state to an image of the next. -/
structure Simulation (concrete : Machine σ α) (abstract : Machine τ β) (image : σ → τ → Prop) :
    Prop where
  initial : ∀ state, concrete.Initial state → ∃ start, abstract.Initial start ∧ image state start
  step : ∀ state action next shown, image state shown → concrete.step state action = some next →
    ∃ after, abstract.Reaches shown after ∧ image next after

namespace Simulation

variable {concrete : Machine σ α} {abstract : Machine τ β} {image : σ → τ → Prop}

theorem reaches (simulation : Simulation concrete abstract image) {state next : σ} {shown : τ}
    (isImage : image state shown) (reaches : concrete.Reaches state next) :
    ∃ after, abstract.Reaches shown after ∧ image next after := by
  induction reaches with
  | refl => exact ⟨shown, .refl, isImage⟩
  | tail _ moves ih =>
      rcases ih with ⟨between, before, isBetween⟩
      rcases moves with ⟨action, taken⟩
      rcases simulation.step _ action _ between isBetween taken with ⟨after, rest, isAfter⟩
      exact ⟨after, before.trans rest, isAfter⟩

/-- A reachable state has a reachable image. -/
theorem reachable (simulation : Simulation concrete abstract image) {state : σ}
    (reachable : concrete.Reachable state) :
    ∃ shown, abstract.Reachable shown ∧ image state shown := by
  rcases reachable with ⟨start, initial, reaches⟩
  rcases simulation.initial start initial with ⟨first, isInitial, isImage⟩
  rcases simulation.reaches isImage reaches with ⟨shown, rest, isShown⟩
  exact ⟨shown, ⟨first, isInitial, rest⟩, isShown⟩

end Simulation

end Cllama.Library.Machine
