import Cllama.Library.Bytes
import Cllama.Library.Transition

/-!
# The pipe between a streaming worker and its response

`IOPipe` buffers what a background thread writes until the HTTP server reads it for the
body of the response.  Every call is one region under the mutex of the pipe; a read waits
until there is something to read or the pipe is closed.  A pipe whose buffer grows past
the watermark is aborted, and takes no more.
-/

namespace Cllama.Api

open Cllama.Library

structure IOPipe where
  buf : Bytes
  done : Bool
  aborted : Bool
  deriving DecidableEq

namespace IOPipe

/-- `MAX_BUFFER`. -/
def maxBuffer : Nat := 1024 * 1024

/-- A new pipe. -/
def fresh : IOPipe where
  buf := []
  done := false
  aborted := false

/-- What a read waits for. -/
def ready (pipe : IOPipe) : Bool :=
  !pipe.buf.isEmpty || pipe.done

/-- A read after its wait: at most `count` octets, and none at the end of the stream. -/
def read (count : Nat) (pipe : IOPipe) : Bytes × IOPipe :=
  if pipe.buf = [] then ([], pipe)
  else (pipe.buf.take count, { pipe with buf := pipe.buf.drop count })

def write (data : Bytes) (pipe : IOPipe) : Bool × IOPipe :=
  if pipe.aborted ∨ pipe.done then (false, pipe)
  else
    let pipe := { pipe with buf := pipe.buf ++ data }
    let pipe := if pipe.buf.length > maxBuffer then { pipe with aborted := true } else pipe
    (!pipe.aborted, pipe)

def close (pipe : IOPipe) : IOPipe :=
  { pipe with done := true }

end IOPipe

/-! ## Runs -/

/-- A pipe with its history: the payloads of the writes performed while it was neither
closed nor aborted, the results of all writes, and what the reads returned. -/
structure PipeState where
  pipe : IOPipe
  payloads : List Bytes
  results : List Bool
  reads : List Bytes
  deriving DecidableEq

inductive PipeAction where
  | write (data : Bytes)
  | close
  | read (count : Nat)
  deriving DecidableEq

namespace PipeState

def fresh : PipeState where
  pipe := .fresh
  payloads := []
  results := []
  reads := []

def write (data : Bytes) (state : PipeState) : PipeState where
  pipe := (state.pipe.write data).2
  payloads :=
    if state.pipe.aborted ∨ state.pipe.done then state.payloads else state.payloads ++ [data]
  results := state.results ++ [(state.pipe.write data).1]
  reads := state.reads

def close (state : PipeState) : PipeState :=
  { state with pipe := state.pipe.close }

/-- A read of at least one octet, once the awaited condition holds. -/
def read (count : Nat) (state : PipeState) : Option PipeState :=
  if count = 0 ∨ ¬state.pipe.ready then none
  else some { state with
    pipe := (state.pipe.read count).2
    reads := state.reads ++ [(state.pipe.read count).1] }

def step (state : PipeState) : PipeAction → Option PipeState
  | .write data => some (state.write data)
  | .close => some state.close
  | .read count => state.read count

end PipeState

/-- The machine of one pipe. -/
def ioPipe : Machine PipeState PipeAction where
  Initial := (· = .fresh)
  step := PipeState.step

/-! ## What the reads return -/

/-- The buffer is not past the watermark, or by one payload only. -/
def PipeState.Bounded (state : PipeState) : Prop :=
  if state.pipe.aborted then
    ∃ data ∈ state.payloads, state.pipe.buf.length ≤ IOPipe.maxBuffer + data.length
  else state.pipe.buf.length ≤ IOPipe.maxBuffer

/-- The invariant of a pipe: nothing is lost or repeated; a refused write means that the
pipe is over for the writer, and an empty read that it is for the reader. -/
structure Fifo (state : PipeState) : Prop where
  order : state.reads.flatten ++ state.pipe.buf = state.payloads.flatten
  refused : false ∈ state.results → state.pipe.aborted = true ∨ state.pipe.done = true
  ended : [] ∈ state.reads → state.pipe.done = true ∧ state.pipe.buf = []
  bounded : state.Bounded

theorem IOPipe.write_of_over {pipe : IOPipe} (data : Bytes)
    (isOver : pipe.aborted = true ∨ pipe.done = true) : pipe.write data = (false, pipe) := by
  rw [write, if_pos isOver]

/-- A write to an open pipe appends its payload, and aborts the pipe if that is too
much. -/
theorem IOPipe.write_of_open {pipe : IOPipe} (data : Bytes)
    (opened : ¬(pipe.aborted = true ∨ pipe.done = true)) :
    pipe.write data = (!decide ((pipe.buf ++ data).length > maxBuffer),
      ⟨pipe.buf ++ data, false, decide ((pipe.buf ++ data).length > maxBuffer)⟩) := by
  rcases pipe with ⟨buf, done, aborted⟩
  simp only [not_or, Bool.not_eq_true] at opened
  rcases opened with ⟨rfl, rfl⟩
  by_cases exceeds : (buf ++ data).length > maxBuffer
  · simp only [write, Bool.false_eq_true, or_self, if_false, exceeds, if_true, decide_true]
  · simp only [write, Bool.false_eq_true, or_self, if_false, exceeds, decide_false]

/-- What is read comes from the front of the buffer. -/
theorem IOPipe.read_append (count : Nat) (pipe : IOPipe) :
    (pipe.read count).1 ++ (pipe.read count).2.buf = pipe.buf := by
  rw [read]
  split
  next empty => rw [empty]; rfl
  next => exact List.take_append_drop count pipe.buf

theorem IOPipe.read_frame (count : Nat) (pipe : IOPipe) :
    (pipe.read count).2.done = pipe.done ∧ (pipe.read count).2.aborted = pipe.aborted := by
  rw [read]
  split <;> exact ⟨rfl, rfl⟩

/-- A read returns nothing only from an empty buffer. -/
theorem IOPipe.buf_of_read {count : Nat} {pipe : IOPipe} (positive : count ≠ 0)
    (empty : (pipe.read count).1 = []) : pipe.buf = [] := by
  by_contra some
  rw [read, if_neg some, List.take_eq_nil_iff] at empty
  exact empty.elim positive some

namespace Fifo

variable {state next : PipeState}

theorem write (fifo : Fifo state) (data : Bytes) : Fifo (state.write data) := by
  rcases fifo with ⟨order, refused, ended, bounded⟩
  by_cases isOver : state.pipe.aborted = true ∨ state.pipe.done = true
  · rw [PipeState.write, IOPipe.write_of_over data isOver, if_pos isOver]
    exact ⟨order, fun _ => isOver, ended, bounded⟩
  · rw [PipeState.write, IOPipe.write_of_open data isOver, if_neg isOver]
    have within : state.pipe.buf.length ≤ IOPipe.maxBuffer := by
      rw [PipeState.Bounded, if_neg (fun aborted => isOver (Or.inl aborted))] at bounded
      exact bounded
    constructor
    · dsimp only
      rw [← List.append_assoc, order, List.flatten_append, List.flatten_singleton]
    · intro someRefused
      rw [List.mem_append, List.mem_singleton] at someRefused
      rcases someRefused with before | isRefused
      · exact absurd (refused before) isOver
      · left
        simpa using isRefused.symm
    · intro someEnded
      exact absurd (Or.inr (ended someEnded).1) isOver
    · rw [PipeState.Bounded]
      dsimp only
      split
      · refine ⟨data, List.mem_append_right _ (List.mem_singleton_self data), ?_⟩
        rw [List.length_append]
        exact Nat.add_le_add_right within _
      next fits => simpa using fits

theorem close (fifo : Fifo state) : Fifo state.close where
  order := fifo.order
  refused _ := Or.inr rfl
  ended someEnded := ⟨rfl, (fifo.ended someEnded).2⟩
  bounded := fifo.bounded

theorem read (fifo : Fifo state) {count : Nat} (taken : state.read count = some next) :
    Fifo next := by
  rcases fifo with ⟨order, refused, ended, bounded⟩
  rw [PipeState.read] at taken
  split at taken
  · cases taken
  next enabled =>
    rw [not_or, not_not] at enabled
    rcases enabled with ⟨positive, ready⟩
    cases taken
    rcases IOPipe.read_frame count state.pipe with ⟨done, aborted⟩
    have shorter : (state.pipe.read count).2.buf.length ≤ state.pipe.buf.length := by
      have same := congrArg List.length (IOPipe.read_append count state.pipe)
      rw [List.length_append] at same
      omega
    constructor
    · dsimp only
      rw [List.flatten_append, List.flatten_singleton, List.append_assoc, IOPipe.read_append,
        order]
    · dsimp only
      rw [aborted, done]
      exact refused
    · intro someEnded
      dsimp only at someEnded ⊢
      have isOver : state.pipe.done = true ∧ state.pipe.buf = [] := by
        rcases List.mem_append.mp someEnded with before | isEnd
        · exact ended before
        · have empty := IOPipe.buf_of_read positive (List.mem_singleton.mp isEnd).symm
          rw [IOPipe.ready, empty] at ready
          exact ⟨ready, empty⟩
      rw [done]
      rw [isOver.2] at shorter
      exact ⟨isOver.1, List.eq_nil_of_length_eq_zero (Nat.le_zero.mp shorter)⟩
    · rw [PipeState.Bounded] at bounded ⊢
      dsimp only
      rw [aborted]
      split at bounded
      next isAborted =>
        rcases bounded with ⟨data, member, bound⟩
        rw [if_pos isAborted]
        exact ⟨data, member, Nat.le_trans shorter bound⟩
      next notAborted =>
        rw [if_neg notAborted]
        exact Nat.le_trans shorter bounded

end Fifo

theorem fifo_invariant : ioPipe.Invariant Fifo where
  initial := by
    rintro state rfl
    exact ⟨rfl, nofun, nofun, Nat.zero_le _⟩
  step := by
    intro state action next fifo taken
    cases action with
    | write data =>
        cases taken
        exact fifo.write data
    | close =>
        cases taken
        exact fifo.close
    | read count => exact fifo.read taken

/-- In every reachable state of a pipe: what was read and what is buffered is the
concatenation of the payloads written while the pipe was neither closed nor aborted; after
a refused write, no write changes the pipe; a read that returns nothing finds the pipe
closed and everything handed out; and the buffer holds at most the watermark and one
payload. -/
theorem ioPipe_fifo {state : PipeState} (reachable : ioPipe.Reachable state) :
    state.reads.flatten ++ state.pipe.buf = state.payloads.flatten ∧
      (false ∈ state.results → ∀ data, (state.pipe.write data).2 = state.pipe) ∧
      (∀ count next, state.read count = some next → (state.pipe.read count).1 = [] →
        state.pipe.done = true ∧ state.reads.flatten = state.payloads.flatten) ∧
      (state.pipe.buf.length ≤ IOPipe.maxBuffer ∨
        ∃ data ∈ state.payloads, state.pipe.buf.length ≤ IOPipe.maxBuffer + data.length) := by
  have fifo := fifo_invariant.of_reachable reachable
  refine ⟨fifo.order, ?_, ?_, ?_⟩
  · intro someRefused data
    rw [IOPipe.write_of_over data (fifo.refused someRefused)]
  · intro count next taken empty
    have after := fifo.read taken
    rw [PipeState.read] at taken
    split at taken
    · cases taken
    next enabled =>
      rw [not_or, not_not] at enabled
      have handedOut := IOPipe.buf_of_read enabled.1 empty
      have ready := enabled.2
      rw [IOPipe.ready, handedOut] at ready
      have order := fifo.order
      rw [handedOut, List.append_nil] at order
      exact ⟨ready, order⟩
  · have bounded := fifo.bounded
    rw [PipeState.Bounded] at bounded
    split at bounded
    · exact Or.inr bounded
    · exact Or.inl bounded

/-- A pipe that is closed before it is drained. -/
theorem ioPipe_fifo_closed :
    ∃ state, ioPipe.run .fresh [.write (bytes "ab"), .read 1, .close, .write (bytes "c"),
        .read 5, .read 1] = some state ∧
      state.reads.flatten ++ state.pipe.buf = state.payloads.flatten ∧
      ∀ data, (state.pipe.write data).2 = state.pipe := by
  have ran : ioPipe.run .fresh [.write (bytes "ab"), .read 1, .close, .write (bytes "c"),
      .read 5, .read 1] =
      some ⟨⟨[], true, false⟩, [bytes "ab"], [true, false], [bytes "a", bytes "b", []]⟩ := by
    decide +kernel
  rcases ioPipe_fifo ⟨.fresh, rfl, Machine.reaches_of_run ran⟩ with ⟨order, refused, -⟩
  exact ⟨_, ran, order, refused (by decide)⟩

end Cllama.Api
