import Cllama.Api.IOPipe
import Cllama.Library.Monitor
import Cllama.Runner.TokenStream

/-!
# Wake-ups of the two consumers

The content provider of the runner waits for its token stream, the response body of the
server for its pipe.  Whatever the other threads do in the meantime, neither sleeps on
while there is something to wake up for: every region that makes a wait predicate true
notifies the consumer.
-/

namespace Cllama.Boundary

open Cllama.Library Cllama.Runner Cllama.Api

variable {codec : Codec}

/-! ## The token stream -/

/-- The region of the done callback, wherever the provider stands. -/
def doneCallback (state : State) : State :=
  { state with
    stream := { state.stream with aborted := true }
    provider := if state.provider = .returned then .closed else state.provider }

/-- The predicate of the content provider. -/
def streamReady (state : State) : Bool :=
  !state.stream.tokens.isEmpty || state.stream.done || state.stream.aborted

/-- The regions of a token stream that notify its condition variable. -/
def streamNotifies (state : State) : Runner.Action → Bool
  | .onToken _ => !state.stream.aborted
  | .finish _ => true
  | .call => false
  | .write _ => false
  | .lock => decide (state.provider = .failed)
  | .release => true

/-- The worker, the content provider, which waits at the beginning of a call, and the done
callback, which may come at any time. -/
def streamMonitor (codec : Codec) : Monitor State Runner.Action where
  regions :=
    { Initial := (· = .fresh)
      step := fun state action =>
        match action with
        | .release => some (doneCallback state)
        | action => Runner.step codec state action }
  waits state action := decide (action = .call) && decide (state.provider = .idle)
  ready := streamReady
  notifies := streamNotifies

theorem streamReady_eq_false {state : State} :
    streamReady state = false ↔ state.stream.tokens = [] ∧ state.stream.done = false ∧
      state.stream.aborted = false := by
  simp [streamReady, and_assoc]

/-- Without a token and before the end, the provider's region changes nothing shared. -/
theorem drain_stream_of_unready {state : State} (unready : streamReady state = false) :
    (drain codec state).stream = state.stream := by
  rcases streamReady_eq_false.mp unready with ⟨empty, running, -⟩
  rw [drain, empty]
  dsimp only
  rw [running]
  rfl

theorem streamMonitor_notifies : (streamMonitor codec).Notifies := by
  intro state action next noWait taken unready ready
  have unchanged : next.stream = state.stream → streamNotifies state action = true := by
    intro same
    have still : streamReady next = streamReady state := by
      rw [streamReady, same, streamReady]
    exact absurd (ready.symm.trans (still.trans unready)) (by decide)
  cases action with
  | onToken piece =>
      simp only [streamMonitor, step, onToken] at taken
      split at taken
      · cases taken
      · split at taken
        · cases taken
          exact unchanged rfl
        next running =>
          rw [Bool.not_eq_true] at running
          simp only [streamMonitor, streamNotifies, running, Bool.not_false]
  | finish text => rfl
  | call =>
      simp only [streamMonitor, step, call] at taken noWait
      split at taken
      next idle => simp [idle] at noWait
      · cases taken
  | write succeeds =>
      simp only [streamMonitor, step] at taken
      unfold write at taken
      split at taken <;> cases taken <;> exact unchanged rfl
  | lock =>
      simp only [streamMonitor, step] at taken
      unfold lock at taken
      split at taken
      · cases taken
        exact unchanged (drain_stream_of_unready unready)
      next failed => exact decide_eq_true failed
      · cases taken
  | release => rfl

/-! ## The pipe -/

/-- The regions of a pipe that notify its condition variable. -/
def pipeNotifies (state : PipeState) : PipeAction → Bool
  | .write _ => !(state.pipe.aborted || state.pipe.done)
  | .close => true
  | .read _ => true

/-- The writer, and the reader, which waits at the beginning of a read. -/
def pipeMonitor : Monitor PipeState PipeAction where
  regions := ioPipe
  waits _ action :=
    match action with
    | .read count => decide (count ≠ 0)
    | _ => false
  ready state := state.pipe.ready
  notifies := pipeNotifies

theorem pipeMonitor_notifies : pipeMonitor.Notifies := by
  intro state action next noWait taken unready ready
  cases action with
  | write data =>
      by_cases isOver : state.pipe.aborted = true ∨ state.pipe.done = true
      · cases taken
        simp only [pipeMonitor, PipeState.write, IOPipe.write_of_over data isOver] at ready unready
        rw [unready] at ready
        cases ready
      · simpa [pipeMonitor, pipeNotifies] using isOver
  | close => rfl
  | read count => rfl

example : pipeMonitor.machine.run (.fresh, .awake) [.read 4, .write (bytes "a")] =
    some (⟨⟨bytes "a", false, false⟩, [bytes "a"], [true], []⟩, .notified) := by decide +kernel

/-! ## Both -/

/-- No reachable state has a consumer asleep without a notification while its predicate
holds. -/
theorem no_lost_wakeup (codec : Codec) :
    (¬∃ state, (streamMonitor codec).machine.Reachable (state, .asleep) ∧
      (state.stream.tokens ≠ [] ∨ state.stream.done = true ∨ state.stream.aborted = true)) ∧
      ¬∃ state, pipeMonitor.machine.Reachable (state, .asleep) ∧
        (state.pipe.buf ≠ [] ∨ state.pipe.done = true) := by
  constructor
  · rintro ⟨state, reachable, ready⟩
    have unready := (Monitor.asleep_invariant streamMonitor_notifies).of_reachable reachable rfl
    rcases streamReady_eq_false.mp unready with ⟨empty, running, sound⟩
    rcases ready with some | done | aborted
    · exact some empty
    · exact absurd (done.symm.trans running) (by decide)
    · exact absurd (aborted.symm.trans sound) (by decide)
  · rintro ⟨state, reachable, ready⟩
    have unready := (Monitor.asleep_invariant pipeMonitor_notifies).of_reachable reachable rfl
    rcases Bool.or_eq_false_iff.mp unready with ⟨empty, opened⟩
    rcases ready with some | done
    · simp [some] at empty
    · exact absurd (done.symm.trans opened) (by decide)

end Cllama.Boundary
