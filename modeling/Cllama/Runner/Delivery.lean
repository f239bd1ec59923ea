import Cllama.Runner.TokenStream
import Cllama.Library.JsonText

/-!
# Delivery of the token stream

Whatever the interleaving of the worker, the content provider and the HTTP server, the
pieces are written in the order in which they were produced, none is lost or repeated
while the writes succeed, and the done record comes last.  The invariant says for every
place of the provider what it has written; each region of the source preserves it.
-/

namespace Cllama.Runner

open Cllama.Library

variable {codec : Codec}

/-- The pieces of the token records written so far. -/
def State.writtenPieces (state : State) : List Bytes :=
  state.records.filterMap Emitted.piece?

/-- Only token records have been written. -/
def State.TokensOnly (state : State) : Prop :=
  state.records = state.writtenPieces.map .token

/-- All pieces have been written, and the done record after them. -/
def State.Finished (state : State) : Prop :=
  state.stream.done = true ∧ state.pushed = state.produced ∧
    state.records = state.produced.map .token ++ [.done state.stream.text]

/-- Nothing has gone wrong and the done record is not written. -/
def State.Open (state : State) : Prop :=
  state.stream.aborted = false ∧ state.writeFailed = false ∧
    state.pushed = state.produced ∧ state.TokensOnly

/-- What holds at each place of the provider. -/
def State.At (codec : Codec) (state : State) : Provider → Prop
  | .idle | .written => state.Open ∧ state.inHand = []
  | .writing line =>
      state.Open ∧ ∃ piece, state.inHand = [piece] ∧
        (Emitted.token piece).line codec = some line
  | .failed => state.TokensOnly ∧ state.writeFailed = true ∧ state.stream.aborted = false
  | .finishing line =>
      state.Open ∧ state.inHand = [] ∧ state.stream.tokens = [] ∧
        state.stream.done = true ∧ (Emitted.done state.stream.text).line codec = some line
  | .returned | .closed => state.TokensOnly ∧ state.writeFailed = true ∨ state.Finished
  | .threw => state.Open

/-- The invariant of a request. -/
structure Delivering (codec : Codec) (state : State) : Prop where
  order : state.writtenPieces ++ state.inHand ++ state.stream.tokens = state.pushed
  worker : state.finalText = if state.stream.done then some state.stream.text else none
  output : Emitted.lines codec state.records = some state.output
  provider : state.At codec state.provider

@[simp] theorem filterMap_piece_map_token (pieces : List Bytes) :
    (pieces.map Emitted.token).filterMap Emitted.piece? = pieces := by
  induction pieces with
  | nil => rfl
  | cons piece pieces ih => simp [Emitted.piece?, ih]

/-! ## Steps of the worker -/

theorem Delivering.worker_running {state : State} (delivering : Delivering codec state)
    (running : ¬state.finalText.isSome) : state.stream.done = false := by
  rcases state with ⟨⟨tokens, text, done, aborted⟩, provider, finalText, _⟩
  cases done with
  | false => rfl
  | true =>
      have worker : finalText = some text := delivering.worker
      simp [worker] at running

/-- As long as the worker is running, its steps change nothing at the place of the
provider, provided that pieces are queued as they are produced. -/
theorem State.At.working {state : State} {place : Provider} (provider : state.At codec place)
    (unfinished : state.stream.done = false) {tokens produced pushed : List Bytes}
    {text : Bytes} {done : Bool} {finalText : Option Bytes}
    (queued : state.stream.aborted = false → state.pushed = state.produced →
      pushed = produced) :
    State.At codec { state with
      stream := ⟨tokens, text, done, state.stream.aborted⟩
      finalText := finalText
      produced := produced
      pushed := pushed } place := by
  have opened : state.Open → State.Open { state with
      stream := ⟨tokens, text, done, state.stream.aborted⟩
      finalText := finalText
      produced := produced
      pushed := pushed } :=
    fun before => ⟨before.1, before.2.1, queued before.1 before.2.2.1, before.2.2.2⟩
  have notFinished : ¬state.Finished := by
    rintro ⟨finished, -⟩
    rw [unfinished] at finished
    cases finished
  cases place with
  | idle => exact ⟨opened provider.1, provider.2⟩
  | writing line => exact ⟨opened provider.1, provider.2⟩
  | written => exact ⟨opened provider.1, provider.2⟩
  | failed => exact provider
  | finishing line =>
      rcases provider with ⟨-, -, -, finished, -⟩
      rw [unfinished] at finished
      cases finished
  | returned => exact Or.inl (provider.resolve_right notFinished)
  | closed => exact Or.inl (provider.resolve_right notFinished)
  | threw => exact opened provider

theorem Delivering.onToken {state next : State} {piece : Bytes}
    (delivering : Delivering codec state) (taken : onToken piece state = some next) :
    Delivering codec next := by
  rw [Runner.onToken] at taken
  split at taken
  · cases taken
  next running =>
    have unfinished := delivering.worker_running running
    rcases delivering with ⟨order, worker, output, provider⟩
    split at taken
    next aborted =>
      cases taken
      refine ⟨order, worker, output, provider.working unfinished fun notAborted => ?_⟩
      rw [notAborted] at aborted
      cases aborted
    next =>
      cases taken
      refine ⟨?_, worker, output, provider.working unfinished fun _ same => ?_⟩
      · rw [← order]
        simp [State.writtenPieces]
      · rw [same]

theorem Delivering.finish {state next : State} {text : Bytes}
    (delivering : Delivering codec state) (taken : finish text state = some next) :
    Delivering codec next := by
  rw [Runner.finish] at taken
  split at taken
  · cases taken
  next running =>
    have unfinished := delivering.worker_running running
    rcases delivering with ⟨order, -, output, provider⟩
    cases taken
    exact ⟨order, rfl, output, provider.working unfinished fun _ same => same⟩

/-! ## Steps of the content provider -/

theorem Delivering.drain {state : State} (delivering : Delivering codec state)
    (opened : state.Open) (empty : state.inHand = []) :
    Delivering codec (drain codec state) := by
  rcases delivering with ⟨order, worker, output, -⟩
  rw [Runner.drain]
  split
  next piece tokens queued =>
    cases dumped : (Emitted.token piece).line codec with
    | none => exact ⟨order, worker, output, opened⟩
    | some line =>
        refine ⟨?_, worker, output, ?_⟩
        · rw [empty, queued] at order
          simpa [State.writtenPieces] using order
        · exact ⟨opened, piece, rfl, dumped⟩
  next queued =>
    split
    next done =>
      cases dumped : (Emitted.done state.stream.text).line codec with
      | none => exact ⟨order, worker, output, opened⟩
      | some line => exact ⟨order, worker, output, opened, empty, queued, done, dumped⟩
    next => exact ⟨order, worker, output, opened, empty⟩

theorem Delivering.call {state next : State} (delivering : Delivering codec state)
    (taken : call codec state = some next) : Delivering codec next := by
  rw [Runner.call] at taken
  split at taken
  next idle =>
    have provider := delivering.provider
    rw [idle] at provider
    split at taken
    · cases taken
    · split at taken
      next aborted =>
        rw [provider.1.1] at aborted
        cases aborted
      next =>
        cases taken
        exact delivering.drain provider.1 provider.2
  · cases taken

theorem Delivering.write {state next : State} {succeeds : Bool}
    (delivering : Delivering codec state) (taken : write succeeds state = some next) :
    Delivering codec next := by
  rcases delivering with ⟨order, worker, output, provider⟩
  unfold Runner.write at taken
  split at taken
  next line place =>
    rw [place] at provider
    rcases provider with ⟨⟨running, sound, complete, tokensOnly⟩, piece, inHand, dumped⟩
    cases taken
    have written : (state.records ++ state.inHand.map Emitted.token).filterMap Emitted.piece? =
        state.writtenPieces ++ [piece] := by
      rw [inHand, List.filterMap_append, filterMap_piece_map_token]
      rfl
    refine ⟨?_, worker, ?_, ⟨running, sound, complete, ?_⟩, rfl⟩
    · rw [← order, State.writtenPieces, written, inHand]
      simp
    · rw [inHand]
      exact Emitted.lines_append_singleton output dumped
    · rw [State.TokensOnly, State.writtenPieces, written, List.map_append, ← tokensOnly, inHand]
  next line place =>
    rw [place] at provider
    cases taken
    exact ⟨order, worker, output, provider.1.2.2.2, rfl, provider.1.1⟩
  next line place =>
    rw [place] at provider
    rcases provider with ⟨⟨running, sound, complete, tokensOnly⟩, inHand, queued, done, dumped⟩
    cases taken
    have allWritten : state.writtenPieces = state.pushed := by
      rw [← order, inHand, queued]
      simp
    refine ⟨?_, worker, Emitted.lines_append_singleton output dumped, Or.inr ⟨done, complete, ?_⟩⟩
    · rw [← order]
      simp [State.writtenPieces, Emitted.piece?]
    · rw [tokensOnly, allWritten, complete]
  next line place =>
    rw [place] at provider
    cases taken
    exact ⟨order, worker, output, Or.inl ⟨provider.1.2.2.2, rfl⟩⟩
  next => cases taken

theorem Delivering.lock {state next : State} (delivering : Delivering codec state)
    (taken : lock codec state = some next) : Delivering codec next := by
  unfold Runner.lock at taken
  split at taken
  next place =>
    have provider := delivering.provider
    rw [place] at provider
    cases taken
    exact delivering.drain provider.1 provider.2
  next place =>
    rcases delivering with ⟨order, worker, output, provider⟩
    rw [place] at provider
    cases taken
    exact ⟨order, worker, output, Or.inl ⟨provider.1, provider.2.1⟩⟩
  next => cases taken

theorem Delivering.release {state next : State} (delivering : Delivering codec state)
    (taken : release state = some next) : Delivering codec next := by
  rw [Runner.release] at taken
  split at taken
  next place =>
    rcases delivering with ⟨order, worker, output, provider⟩
    rw [place] at provider
    cases taken
    exact ⟨order, worker, output, provider⟩
  next => cases taken

/-! ## Runs -/

/-- Every step of either party keeps the invariant. -/
theorem delivering_invariant : (tokenStream codec).Invariant (Delivering codec) where
  initial := by
    rintro state rfl
    exact ⟨rfl, rfl, rfl, ⟨rfl, rfl, rfl, rfl⟩, rfl⟩
  step := by
    intro state action next delivering taken
    cases action with
    | onToken piece => exact delivering.onToken taken
    | finish text => exact delivering.finish taken
    | call => exact delivering.call taken
    | write succeeds => exact delivering.write taken
    | lock => exact delivering.lock taken
    | release => exact delivering.release taken

theorem drain_frame (state : State) :
    (drain codec state).stream.aborted = state.stream.aborted ∧
      (drain codec state).pushed = state.pushed := by
  unfold drain
  split
  · split <;> exact ⟨rfl, rfl⟩
  · split
    · split <;> exact ⟨rfl, rfl⟩
    · exact ⟨rfl, rfl⟩

/-- An abort is final, and no step queues a piece after it. -/
theorem step_of_aborted {state next : State} {action : Action}
    (aborted : state.stream.aborted = true) (taken : step codec state action = some next) :
    next.stream.aborted = true ∧ next.pushed = state.pushed := by
  have drained : (drain codec state).stream.aborted = true ∧
      (drain codec state).pushed = state.pushed :=
    ⟨(drain_frame state).1.trans aborted, (drain_frame state).2⟩
  cases action with
  | onToken piece =>
      simp only [step, onToken, aborted, if_true] at taken
      split at taken <;> cases taken
      exact ⟨aborted, rfl⟩
  | finish text =>
      simp only [step, finish] at taken
      split at taken <;> cases taken
      exact ⟨aborted, rfl⟩
  | call =>
      rw [step, call] at taken
      split at taken
      · split at taken
        · cases taken
        · cases taken
          exact ⟨aborted, rfl⟩
      · cases taken
  | write succeeds =>
      simp only [step] at taken
      unfold write at taken
      split at taken <;> cases taken <;> exact ⟨aborted, rfl⟩
  | lock =>
      simp only [step] at taken
      unfold lock at taken
      split at taken <;> cases taken
      · exact drained
      · exact ⟨rfl, rfl⟩
  | release =>
      simp only [step, release] at taken
      split at taken <;> cases taken
      exact ⟨rfl, rfl⟩

/-! ## Completion -/

/-- The parts of a state that the provider does not change while its writes succeed. -/
def State.SameWork (next state : State) : Prop :=
  next.writeFailed = state.writeFailed ∧ next.produced = state.produced ∧
    next.finalText = state.finalText

/-- After the worker has ended, the provider can write what is left and close. -/
theorem drain_closes {state : State} (done : state.stream.done = true)
    (tokens : ∀ piece ∈ state.stream.tokens, ((Emitted.token piece).line codec).isSome)
    (final : ((Emitted.done state.stream.text).line codec).isSome) :
    ∃ next, (tokenStream codec).Reaches (drain codec state) next ∧
      next.provider = .closed ∧ next.SameWork state := by
  rcases Option.isSome_iff_exists.mp final with ⟨finalLine, finalDumped⟩
  rcases state with ⟨⟨queue, text, _, aborted⟩, provider, finalText, produced, pushed, inHand,
    records, output, writeFailed⟩
  cases done
  induction queue generalizing provider pushed inHand records output with
  | nil =>
      rw [drain]
      simp only [if_true, finalDumped]
      exact ⟨_, .head ⟨.write true, rfl⟩ (.head ⟨.release, rfl⟩ .refl), rfl, rfl, rfl, rfl⟩
  | cons piece queue ih =>
      rw [List.forall_mem_cons] at tokens
      rcases Option.isSome_iff_exists.mp tokens.1 with ⟨line, dumped⟩
      rw [drain]
      simp only [dumped]
      rcases ih .written pushed [] (records ++ [.token piece]) (output ++ line) tokens.2 final
        finalDumped with ⟨next, reaches, closed, sameWork⟩
      exact ⟨next, .head ⟨.write true, rfl⟩ (.head ⟨.lock, rfl⟩ reaches), closed, sameWork⟩

/-- The state after some pieces, before the provider is called. -/
def State.pushing (pieces : List Bytes) : State :=
  { State.fresh with
    stream := ⟨pieces, [], false, false⟩
    produced := pieces
    pushed := pieces }

theorem reaches_pushing (pieces : List Bytes) :
    (tokenStream codec).Reaches .fresh (.pushing pieces) := by
  induction pieces using List.reverseRecOn with
  | nil => exact .refl
  | append_singleton pieces piece ih => exact ih.tail ⟨.onToken piece, rfl⟩

/-- Whatever can be serialised can be delivered: some run writes all of it and closes. -/
theorem exists_closed {pieces : List Bytes} {text : Bytes}
    (tokens : ∀ piece ∈ pieces, ((Emitted.token piece).line codec).isSome)
    (final : ((Emitted.done text).line codec).isSome) :
    ∃ state, (tokenStream codec).Reachable state ∧ state.provider = .closed ∧
      state.writeFailed = false ∧ state.produced = pieces ∧ state.finalText = some text := by
  let finished : State :=
    { State.pushing pieces with stream := ⟨pieces, text, true, false⟩, finalText := some text }
  rcases @drain_closes codec finished rfl tokens final with
    ⟨next, reaches, closed, sound, produced, ended⟩
  have called : call codec finished = some (drain codec finished) := by
    simp [call, finished, State.pushing, State.fresh]
  refine ⟨next, ⟨.fresh, rfl, ?_⟩, closed, sound, produced, ended⟩
  exact (reaches_pushing pieces).trans
    (.head ⟨.finish text, rfl⟩ (.head ⟨.call, called⟩ reaches))

/-! ## Exceptions -/

theorem drain_sameWork (state : State) : (drain codec state).SameWork state := by
  unfold drain
  split
  · split <;> exact ⟨rfl, rfl, rfl⟩
  · split
    · split <;> exact ⟨rfl, rfl, rfl⟩
    · exact ⟨rfl, rfl, rfl⟩

/-- A piece produced so far, or the text that the worker ended with, cannot be
serialised. -/
def State.Unserialisable (codec : Codec) (state : State) : Prop :=
  (∃ piece ∈ state.produced, (Emitted.token piece).line codec = none) ∨
    ∃ text, state.finalText = some text ∧ (Emitted.done text).line codec = none

/-- The provider throws for a reason. -/
def State.ThrewFor (codec : Codec) (state : State) : Prop :=
  state.provider = .threw → state.Unserialisable codec

theorem Delivering.drain_threwFor {state : State} (delivering : Delivering codec state)
    (opened : state.Open) : (Runner.drain codec state).ThrewFor codec := by
  intro threw
  rcases @drain_sameWork codec state with ⟨-, produced, finalText⟩
  rw [State.Unserialisable, produced, finalText]
  unfold Runner.drain at threw
  split at threw
  next piece tokens queued =>
    cases dumped : (Emitted.token piece).line codec with
    | none =>
        refine Or.inl ⟨piece, ?_, dumped⟩
        rw [← opened.2.2.1, ← delivering.order, queued]
        simp
    | some line =>
        rw [dumped] at threw
        cases threw
  next =>
    split at threw
    next done =>
      cases dumped : (Emitted.done state.stream.text).line codec with
      | none => exact Or.inr ⟨state.stream.text, by rw [delivering.worker, if_pos done], dumped⟩
      | some line =>
          rw [dumped] at threw
          cases threw
    next => cases threw

/-- The reason stays as long as the provider stays where it is. -/
theorem State.ThrewFor.mono {state next : State} (threwFor : state.ThrewFor codec)
    (provider : next.provider = state.provider) (produced : state.produced <+: next.produced)
    (finalText : ∀ text, state.finalText = some text → next.finalText = some text) :
    next.ThrewFor codec := by
  intro threw
  rw [provider] at threw
  apply (threwFor threw).imp
  · rintro ⟨piece, member, garbled⟩
    exact ⟨piece, produced.subset member, garbled⟩
  · rintro ⟨text, isText, garbled⟩
    exact ⟨text, finalText text isText, garbled⟩

section ThrewFor

variable {state next : State}

theorem State.ThrewFor.onToken {piece : Bytes} (threwFor : state.ThrewFor codec)
    (taken : Runner.onToken piece state = some next) : next.ThrewFor codec := by
  rw [Runner.onToken] at taken
  split at taken
  · cases taken
  · split at taken <;> cases taken <;>
      exact threwFor.mono rfl (List.prefix_append _ _) fun _ same => same

theorem State.ThrewFor.finish {text : Bytes} (threwFor : state.ThrewFor codec)
    (taken : Runner.finish text state = some next) : next.ThrewFor codec := by
  rw [Runner.finish] at taken
  split at taken
  · cases taken
  next running =>
    cases taken
    refine threwFor.mono rfl List.prefix_rfl fun ended isEnded => ?_
    rw [isEnded] at running
    exact absurd rfl running

theorem Delivering.call_threwFor (delivering : Delivering codec state)
    (taken : Runner.call codec state = some next) : next.ThrewFor codec := by
  rw [Runner.call] at taken
  split at taken
  next idle =>
    have provider := delivering.provider
    rw [idle] at provider
    split at taken
    · cases taken
    · split at taken <;> cases taken
      · exact nofun
      · exact delivering.drain_threwFor provider.1
  · cases taken

theorem Delivering.lock_threwFor (delivering : Delivering codec state)
    (taken : Runner.lock codec state = some next) : next.ThrewFor codec := by
  have provider := delivering.provider
  unfold Runner.lock at taken
  split at taken
  next place =>
    rw [place] at provider
    cases taken
    exact delivering.drain_threwFor provider.1
  · cases taken
    exact nofun
  · cases taken

end ThrewFor

/-- In every reachable state the provider has thrown only if there is a record to throw
for. -/
theorem threwFor_invariant : (tokenStream codec).Invariant
    fun state => Delivering codec state ∧ state.ThrewFor codec where
  initial := by
    intro state initial
    refine ⟨delivering_invariant.initial state initial, fun threw => ?_⟩
    cases initial
    cases threw
  step := by
    rintro state action next ⟨delivering, threwFor⟩ taken
    refine ⟨delivering_invariant.step state action next delivering taken, ?_⟩
    cases action with
    | onToken piece => exact threwFor.onToken taken
    | finish text => exact threwFor.finish taken
    | call => exact delivering.call_threwFor taken
    | write succeeds =>
        simp only [tokenStream, step] at taken
        unfold write at taken
        split at taken <;> cases taken <;> exact nofun
    | lock => exact delivering.lock_threwFor taken
    | release =>
        simp only [tokenStream, step, release] at taken
        split at taken <;> cases taken
        exact nofun

/-- The provider throws at the first piece in the queue that cannot be serialised. -/
theorem drain_throws {state : State} {before after : List Bytes} {piece : Bytes}
    (queued : state.stream.tokens = before ++ piece :: after)
    (fine : ∀ other ∈ before, ((Emitted.token other).line codec).isSome)
    (garbled : (Emitted.token piece).line codec = none) :
    ∃ next, (tokenStream codec).Reaches (drain codec state) next ∧
      next.provider = .threw ∧ next.SameWork state := by
  rcases state with ⟨⟨queue, text, done, aborted⟩, provider, finalText, produced, pushed, inHand,
    records, output, writeFailed⟩
  dsimp only at queued
  subst queued
  induction before generalizing provider pushed inHand records output with
  | nil =>
      rw [drain]
      simp only [List.nil_append, garbled]
      exact ⟨_, .refl, rfl, rfl, rfl, rfl⟩
  | cons other before ih =>
      rw [List.forall_mem_cons] at fine
      rcases Option.isSome_iff_exists.mp fine.1 with ⟨line, dumped⟩
      rw [drain]
      simp only [List.cons_append, dumped]
      rcases ih fine.2 .written pushed [] (records ++ [.token other]) (output ++ line) with
        ⟨next, reaches, threw, sameWork⟩
      exact ⟨next, .head ⟨.write true, rfl⟩ (.head ⟨.lock, rfl⟩ reaches), threw, sameWork⟩

/-- A piece that cannot be serialised makes some run throw before the worker has ended. -/
theorem exists_threw {pieces : List Bytes} {piece : Bytes} (member : piece ∈ pieces)
    (garbled : (Emitted.token piece).line codec = none) :
    ∃ state, (tokenStream codec).Reachable state ∧ state.provider = .threw ∧
      state.produced = pieces ∧ state.finalText = none := by
  let garbles : Bytes → Bool := fun other => ((Emitted.token other).line codec).isNone
  have isGarbled : garbles piece = true := by
    dsimp only [garbles]
    rw [garbled]
    rfl
  rcases Option.isSome_iff_exists.mp (List.find?_isSome.mpr ⟨piece, member, isGarbled⟩) with
    ⟨first, found⟩
  rcases List.find?_eq_some_iff_append.mp found with ⟨firstGarbled, before, after, rfl, fine⟩
  rcases @drain_throws codec (.pushing (before ++ first :: after)) before after first rfl
    (fun other isBefore => by simpa [garbles] using fine other isBefore)
    (Option.isNone_iff_eq_none.mp firstGarbled) with ⟨next, reaches, threw, -, produced, ended⟩
  have called : call codec (.pushing (before ++ first :: after)) =
      some (drain codec (.pushing (before ++ first :: after))) := by
    simp [call, State.pushing, State.fresh]
  refine ⟨next, ⟨.fresh, rfl, ?_⟩, threw, produced, ended⟩
  exact (reaches_pushing _).trans (.head ⟨.call, called⟩ reaches)

/-- What is left of a run that closed without a failed write. -/
theorem Delivering.closed {state : State} (delivering : Delivering codec state)
    (closed : state.provider = .closed) (sound : state.writeFailed = false) :
    ∃ text, state.finalText = some text ∧
      state.records = state.produced.map .token ++ [.done text] := by
  have provider := delivering.provider
  rw [closed] at provider
  rcases provider with ⟨-, failed⟩ | ⟨done, -, all⟩
  · rw [sound] at failed
    cases failed
  · exact ⟨state.stream.text, by rw [delivering.worker, if_pos done], all⟩

/-! ## The guarantee -/

/-- In every reachable state of a request: the pieces written, the one in hand and those
queued are the pieces pushed, in order; the done record, if it is written, is the only
one, comes after all pieces produced and carries the text the worker ended with; the
octets written are the lines of the records written; after an abort nothing more is
queued; and a response that is over, with no failed write, consists of all pieces
produced and the done record. -/
theorem tokenStream_delivers (codec : Codec) {state : State}
    (reachable : (tokenStream codec).Reachable state) :
    state.records.filterMap Emitted.piece? ++ state.inHand ++ state.stream.tokens =
        state.pushed ∧
      (state.records = (state.records.filterMap Emitted.piece?).map .token ∨
        ∃ text, state.finalText = some text ∧
          state.records = state.produced.map .token ++ [.done text]) ∧
      Emitted.lines codec state.records = some state.output ∧
      (state.stream.aborted = true → ∀ next, (tokenStream codec).Reaches state next →
        next.pushed = state.pushed) ∧
      (state.provider = .closed → state.writeFailed = false →
        ∃ text, state.finalText = some text ∧
          state.records = state.produced.map .token ++ [.done text]) := by
  have delivering := delivering_invariant.of_reachable reachable
  have finished : state.Finished → ∃ text, state.finalText = some text ∧
      state.records = state.produced.map .token ++ [.done text] := by
    rintro ⟨done, -, all⟩
    refine ⟨state.stream.text, ?_, all⟩
    rw [delivering.worker, if_pos done]
  refine ⟨delivering.order, ?_, delivering.output, ?_, ?_⟩
  · have provider := delivering.provider
    cases place : state.provider <;> rw [place] at provider
    case idle | written | writing | finishing => exact Or.inl provider.1.2.2.2
    case failed => exact Or.inl provider.1
    case returned | closed => exact provider.imp And.left finished
    case threw => exact Or.inl provider.2.2.2
  · intro aborted next reaches
    exact Machine.Reaches.unchanged (·.stream.aborted = true) State.pushed
      (fun _ _ _ before taken => step_of_aborted before taken) aborted reaches
  · exact delivering.closed

/-- Two pieces, the second of which arrives during the write of the first. -/
theorem tokenStream_delivers_during_write :
    ∃ state, (tokenStream JsonText.reference).run .fresh
        [.onToken (bytes "a"), .call, .onToken (bytes "b"), .write true, .finish (bytes "ab"),
          .lock, .write true, .lock, .write true, .release] = some state ∧
      ∃ text, state.finalText = some text ∧
        state.records = state.produced.map .token ++ [.done text] := by
  cases ran : (tokenStream JsonText.reference).run .fresh
      [.onToken (bytes "a"), .call, .onToken (bytes "b"), .write true, .finish (bytes "ab"),
        .lock, .write true, .lock, .write true, .release] with
  | none => exact absurd ran (by decide +kernel)
  | some state =>
    have ended : (some state).map (fun state => (state.provider, state.writeFailed)) =
        some (.closed, false) := by
      rw [← ran]
      decide +kernel
    rw [Option.map_some, Option.some.injEq, Prod.mk.injEq] at ended
    have reachable : (tokenStream JsonText.reference).Reachable state :=
      ⟨.fresh, rfl, Machine.reaches_of_run ran⟩
    exact ⟨state, rfl,
      (tokenStream_delivers JsonText.reference reachable).2.2.2.2 ended.1 ended.2⟩

end Cllama.Runner
