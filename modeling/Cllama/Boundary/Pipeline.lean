import Cllama.Api.TranscriptShape
import Cllama.Boundary.RecordLines

/-!
# From the model to the client

A streaming request goes through three programs.  The worker of the runner generates pieces,
which its content provider writes as records; the manager parses the lines of the records as they
arrive, whatever the chunks, and its callback writes an event for each token to the pipe; the
client reads the pipe.  All of them move on at their own pace.
-/

namespace Cllama.Boundary

open Cllama.Library Cllama.Core RunnerMgr Cllama.Api

/-- The runner; how many octets of its response have arrived and how many of their lines have been
parsed; the context of the parser; the worker of the server with the pipe; and how the call of the
manager has ended. -/
structure Pipeline where
  runner : Runner.State
  arrived : Nat
  parsed : Nat
  ctx : StreamCtx
  server : TranscriptState
  outcome : Option Outcome

inductive PipelineAction where
  | runner (action : Runner.Action)
  | arrive (count : Nat)
  | parse
  | complete
  | fail (outcome : Outcome)
  | work
  | read (count : Nat)

section Machine

variable (codec : Codec) (typeError : Json → Bytes) (streaming : Streaming)

namespace Pipeline

/-- The answer of the callback for its latest token is the result of the write. -/
def answer (pipe : PipeState) : TokenCallback := fun tokens => do
  let token ← tokens.getLast?
  let text ← sse codec (streaming.tokenEvent token)
  return (pipe.pipe.write text).1

/-- The lines that have arrived. -/
def lines (state : Pipeline) : List Bytes :=
  (Lines.split Codec.newline (state.runner.output.take state.arrived)).1

/-- The call of the manager ends. -/
def ends (outcome : Outcome) (state : Pipeline) : Option Pipeline :=
  (TranscriptState.returned outcome state.server).map fun server =>
    { state with server := server, outcome := some outcome }

/-- The context of the parser, with the callback as the pipe stands. -/
def context (state : Pipeline) : StreamCtx :=
  { state.ctx with onToken := some (answer codec streaming state.server.pipe) }

/-- What follows a round of the parser: the callback of each token it handed over writes to the
pipe, and the request goes on or is cancelled. -/
def followed (round : Bool × StreamCtx) (state : Pipeline) : Option Pipeline :=
  let server := (round.2.tokens.drop state.ctx.tokens.length).foldl
    (fun server token => (TranscriptState.token codec streaming token server).getD server)
    state.server
  let next := { state with parsed := state.parsed + 1, ctx := round.2, server := server }
  if round.1 then some next
  else next.ends (.ok (.error ⟨.networkError, bytes "Runner connection failed"⟩))

/-- One round of the loop of `stream_parse_chunk`.  A refused token cancels the request. -/
def parse (state : Pipeline) : Option Pipeline :=
  if state.server.place = .streaming then
    state.lines[state.parsed]?.bind fun line =>
      state.followed codec streaming (streamParseLine codec line (state.context codec streaming))
  else none

/-- The connection to the runner ends, and all lines that have arrived have been parsed.  The
response has no length, so that a response cut short looks like one that is over. -/
def complete (state : Pipeline) : Option Pipeline :=
  if state.parsed = state.lines.length then
    state.ends (.ok (if state.ctx.gotError then .error ⟨.modelError, state.ctx.errorMsg⟩
      else .ok state.ctx.fullText))
  else none

/-- The call ends in any other way: the runner could not be started, the connection was lost, its
status is not that of a success, or an exception escapes. -/
def fail (outcome : Outcome) (state : Pipeline) : Option Pipeline :=
  match outcome with
  | .ok (.ok _) => none
  | _ => state.ends outcome

def step (state : Pipeline) : PipelineAction → Option Pipeline
  | .runner action =>
      (Runner.step codec state.runner action).map fun runner => { state with runner := runner }
  | .arrive count =>
      if state.outcome.isNone ∧ state.arrived + count ≤ state.runner.output.length then
        some { state with arrived := state.arrived + count }
      else none
  | .parse => state.parse codec streaming
  | .complete => state.complete
  | .fail outcome => state.fail outcome
  | .work =>
      (TranscriptState.work codec typeError streaming state.server).map fun server =>
        { state with server := server }
  | .read count =>
      (state.server.read count).map fun server => { state with server := server }

/-- The pipeline when the request starts. -/
def fresh : Pipeline where
  runner := .fresh
  arrived := 0
  parsed := 0
  ctx := .fresh none
  server := .fresh streaming
  outcome := none

end Pipeline

/-- The three programs of one streaming request. -/
def pipeline : Machine Pipeline PipelineAction where
  Initial := (· = .fresh streaming)
  step := Pipeline.step codec typeError streaming

end Machine

variable {codec : Codec} {typeError : Json → Bytes} {streaming : Streaming}

/-! ## The parser -/

/-- The line of a token record has its token handed over, and the answer decides. -/
theorem streamParseLine_answer {line piece : Bytes} (encoded : Encodes codec line (.token piece))
    {ctx : StreamCtx} {onToken : TokenCallback} (hands : ctx.onToken = some onToken) {goOn : Bool}
    (answers : onToken (ctx.tokens ++ [piece]) = some goOn) :
    streamParseLine codec line ctx = (goOn, { ctx with tokens := ctx.tokens ++ [piece] }) := by
  rcases ctx with ⟨leftover, fullText, gotError, errorMsg, gotDone, onToken', tokens⟩
  cases hands
  have parsed := (readRecord_encoded encoded).trans (readValue_token piece)
  rw [streamParseLine, if_neg encoded.1, streamParseRecord_of_ok parsed]
  dsimp only at answers
  cases goOn <;>
    simp [StreamCtx.deliver, Json.getString, answers, StreamCtx.finish, Record.finish]

/-! ## What the pipe carries -/

/-- The token of the data of an event. -/
def tokenIn (codec : Codec) (data : Bytes) : Option Bytes :=
  (codec.parse data).bind tokenOf

/-- Some data are events whose tokens are the given ones. -/
def Carries (codec : Codec) (texts tokens : List Bytes) : Prop :=
  (∀ text ∈ texts, Sse.newline ∉ text) ∧ texts.filterMap (tokenIn codec) = tokens

/-- The pipe is closed by the worker at its end only, and it took events that carry the tokens
handed over. -/
structure Carrying (codec : Codec) (state : TranscriptState) : Prop where
  fifo : Fifo state.pipe
  closed : state.pipe.pipe.done = true → state.place = .finished
  carries : ∃ texts, Accepted state.pipe (texts.map Sse.event) ∧
    Carries codec texts state.tokens

namespace Carrying

variable {state next : TranscriptState} {outcome : Outcome}

/-- The worker writes an event and moves on. -/
theorem write {pipe : PipeState} {place nextPlace : Place} {tokens : List Bytes} {data : Bytes}
    (carrying : Carrying codec ⟨pipe, place, tokens⟩) (running : place ≠ .finished)
    (free : Sse.newline ∉ data) :
    Carrying codec ⟨pipe.write (Sse.event data), nextPlace,
      tokens ++ (tokenIn codec data).toList⟩ := by
  rcases carrying with ⟨fifo, closed, texts, accepted, texted, carried⟩
  have opened : pipe.pipe.done = false := by
    apply eq_false_of_ne_true
    intro done
    exact running (closed done)
  constructor
  · exact fifo.write _
  · intro done
    rw [PipeState.write_done, opened] at done
    cases done
  · refine ⟨texts ++ [data], ?_, ?_, ?_⟩
    · simpa using accepted.write opened (Sse.event data)
    · exact List.forall_mem_append.mpr ⟨texted, List.forall_mem_singleton.mpr free⟩
    · rw [List.filterMap_append, carried]
      cases found : tokenIn codec data <;> simp [found]

/-- An event without a token. -/
theorem writeSilent {pipe : PipeState} {place nextPlace : Place} {tokens : List Bytes}
    {data : Bytes} (carrying : Carrying codec ⟨pipe, place, tokens⟩)
    (running : place ≠ .finished) (free : Sse.newline ∉ data)
    (silent : tokenIn codec data = none) :
    Carrying codec ⟨pipe.write (Sse.event data), nextPlace, tokens⟩ := by
  have written := @write codec pipe place nextPlace tokens data carrying running free
  rw [silent, Option.toList_none, List.append_nil] at written
  exact written

/-- The worker moves on without a write. -/
theorem move {pipe : PipeState} {place nextPlace : Place} {tokens : List Bytes}
    (carrying : Carrying codec ⟨pipe, place, tokens⟩) (running : place ≠ .finished) :
    Carrying codec ⟨pipe, nextPlace, tokens⟩ where
  fifo := carrying.fifo
  closed done := absurd (carrying.closed done) running
  carries := carrying.carries

theorem tokenIn_of_dump (lawful : codec.Lawful) {json : Json} (textual : json.Textual)
    {text : Bytes} (dumped : codec.dump json = some text) :
    tokenIn codec text = tokenOf json := by
  rw [tokenIn, lawful.parse_dump json text textual dumped]
  rfl

/-- The event of an error carries no token. -/
theorem writeError {pipe : PipeState} {place nextPlace : Place} {tokens : List Bytes}
    {message octets : Bytes} (lawful : codec.Lawful)
    (carrying : Carrying codec ⟨pipe, place, tokens⟩) (running : place ≠ .finished)
    (written : sse codec (errorEvent message) = some octets) :
    Carrying codec ⟨pipe.write octets, nextPlace, tokens⟩ := by
  rcases sse_eq_some written with ⟨text, dumped, rfl⟩
  have valid := (dump_errorEvent_isSome lawful message).mp (by rw [dumped]; rfl)
  apply carrying.writeSilent running (lawful.newline_not_mem _ _ dumped)
  exact tokenIn_of_dump lawful (textual_errorEvent valid) dumped

theorem work (lawful : codec.Lawful) (notJson : codec.parse doneMark = none)
    (carrying : Carrying codec state)
    (taken : TranscriptState.work codec typeError streaming state = some next) :
    Carrying codec next := by
  rcases state with ⟨pipe, place, tokens⟩
  cases place with
  | starting =>
      rcases @exists_sse codec lawful _ (@Streaming.textual_roleEvent streaming) with
        ⟨text, dumped, octets⟩
      simp only [TranscriptState.work, octets, Option.some.injEq] at taken
      subst taken
      apply carrying.writeSilent (by simp) (lawful.newline_not_mem _ _ dumped)
      exact tokenIn_of_dump lawful Streaming.textual_roleEvent dumped
  | reporting message =>
      cases octets : sse codec (errorEvent message) <;>
        simp only [TranscriptState.work, octets, Option.some.injEq] at taken <;> subst taken
      · exact carrying.move (by simp)
      · exact carrying.writeError lawful (by simp) octets
  | catching what =>
      cases octets : sse codec (errorEvent what) <;>
        simp only [TranscriptState.work, octets, Option.some.injEq] at taken <;> subst taken
      · exact carrying.move (by simp)
      · exact carrying.writeError lawful (by simp) octets
  | ending =>
      cases taken
      apply carrying.writeSilent (by simp) (by decide)
      rw [tokenIn, notJson]
      rfl
  | closing =>
      cases taken
      rcases carrying with ⟨fifo, -, texts, accepted, carried⟩
      exact ⟨fifo.close, fun _ => rfl, texts, accepted, carried⟩
  | streaming => cases taken
  | finished => cases taken
  | terminated => cases taken

theorem token (lawful : codec.Lawful) (carrying : Carrying codec state) {piece : Bytes}
    (taken : TranscriptState.token codec streaming piece state = some next) :
    Carrying codec next := by
  rcases state with ⟨pipe, place, tokens⟩
  rw [TranscriptState.token] at taken
  split at taken
  next enabled =>
    rcases enabled with ⟨rfl, valid⟩
    rcases Option.map_eq_some_iff.mp taken with ⟨octets, serialised, rfl⟩
    rcases sse_eq_some serialised with ⟨text, dumped, rfl⟩
    have carried := @write codec pipe .streaming .streaming tokens text carrying (by simp)
      (lawful.newline_not_mem _ _ dumped)
    rw [tokenIn_of_dump lawful (Streaming.textual_tokenEvent valid) dumped,
      tokenOf_tokenEvent] at carried
    exact carried
  · cases taken

theorem returned (carrying : Carrying codec state)
    (taken : TranscriptState.returned outcome state = some next) : Carrying codec next := by
  rcases state with ⟨pipe, place, tokens⟩
  unfold TranscriptState.returned at taken
  split at taken
  next streams =>
    cases streams
    split at taken <;> cases taken <;> exact carrying.move (by simp)
  · cases taken

theorem read (carrying : Carrying codec state) {count : Nat}
    (taken : state.read count = some next) : Carrying codec next := by
  rw [TranscriptState.read] at taken
  split at taken
  · cases taken
  · rcases Option.map_eq_some_iff.mp taken with ⟨pipe, reads, rfl⟩
    have fifo := carrying.fifo.read reads
    rcases carrying with ⟨-, closed, texts, accepted, carried⟩
    rw [PipeState.read] at reads
    split at reads
    · cases reads
    · cases reads
      rcases IOPipe.read_frame count state.pipe.pipe with ⟨done, aborted⟩
      refine ⟨fifo, fun isDone => closed (done.symm.trans isDone), texts, ?_, carried⟩
      rw [Accepted]
      dsimp only
      rw [aborted]
      exact accepted

/-- What the client has decoded so far are the first tokens, and once it has found the end of a
pipe that was not aborted, all of them. -/
theorem tokensOf_reads (carrying : Carrying codec state) :
    tokensOf codec state.pipe.reads.flatten <+: state.tokens ∧
      ([] ∈ state.pipe.reads → state.pipe.pipe.aborted = false →
        tokensOf codec state.pipe.reads.flatten = state.tokens) := by
  rcases carrying with ⟨fifo, -, texts, ⟨front, whole⟩, free, carried⟩
  rw [← carried]
  have decoded : ∀ {events : List Bytes}, events <+: texts →
      (Sse.decode (events.flatMap Sse.event)).filterMap (tokenIn codec) =
        events.filterMap (tokenIn codec) := by
    intro events isFront
    rw [Sse.decode_flatMap_event fun text member => free text (isFront.subset member)]
  constructor
  · rcases List.prefix_map_iff.mp front with ⟨events, isFront, payloads⟩
    have order := fifo.order
    rw [payloads, ← List.flatMap_def] at order
    have early := (Sse.decode_prefix ⟨_, order⟩).filterMap (tokenIn codec)
    rw [decoded isFront] at early
    exact early.trans (isFront.filterMap _)
  · intro ended sound
    have order := fifo.order
    rw [(fifo.ended ended).2, List.append_nil, whole sound, ← List.flatMap_def] at order
    rw [order]
    exact decoded List.prefix_rfl

end Carrying

/-! ## The three programs together -/

/-- The invariant of a streaming request: the parser stands where the records it has read lead
to, the tokens it handed over are theirs, and the call of the manager has ended once the worker
of the server has left it. -/
structure Piped (codec : Codec) (state : Pipeline) : Prop where
  runner : Runner.Delivering codec state.runner
  queued : Queued state.runner
  server : Carrying codec state.server
  within : state.parsed ≤ state.runner.records.length
  arrived : state.arrived ≤ state.runner.output.length
  pieces : state.ctx.tokens = piecesOf (state.runner.records.take state.parsed)
  tokens : state.server.tokens = state.ctx.tokens
  text : state.ctx.fullText = textAfter (state.runner.records.take state.parsed)
  done : state.ctx.gotDone = (state.runner.records.take state.parsed).any isDone
  outcome : ∀ text, state.outcome = some (.ok (.ok text)) →
    state.ctx.fullText = text ∧ state.parsed = state.lines.length
  ended : state.outcome.isSome = true → state.server.place ≠ .starting ∧
    state.server.place ≠ .streaming

namespace Piped

variable {state next : Pipeline}

theorem running (piped : Piped codec state) (streams : state.server.place = .streaming) :
    state.outcome = none := by
  apply Option.not_isSome_iff_eq_none.mp
  intro isOutcome
  exact (piped.ended isOutcome).2 streams

theorem ends (piped : Piped codec state) {outcome : Outcome}
    (text : ∀ text, outcome = .ok (.ok text) →
      state.ctx.fullText = text ∧ state.parsed = state.lines.length)
    (taken : state.ends outcome = some next) : Piped codec next := by
  rcases Option.map_eq_some_iff.mp taken with ⟨server, returned, rfl⟩
  have carrying := piped.server.returned returned
  unfold TranscriptState.returned at returned
  split at returned
  next streams =>
    have left : server.place ≠ .starting ∧ server.place ≠ .streaming ∧
        server.tokens = state.server.tokens := by
      split at returned <;> cases returned <;> exact ⟨nofun, nofun, rfl⟩
    exact { piped with
      server := carrying
      tokens := left.2.2.trans piped.tokens
      outcome := fun final same => text final (Option.some.inj same)
      ended := fun _ => ⟨left.1, left.2.1⟩ }
  · cases returned

theorem runnerStep (piped : Piped codec state) {action : Runner.Action}
    {runner : Runner.State} (taken : Runner.step codec state.runner action = some runner) :
    Piped codec { state with runner := runner } := by
  rcases grows taken with ⟨⟨records, grown⟩, ⟨output, written⟩⟩
  have same : runner.records.take state.parsed = state.runner.records.take state.parsed := by
    rw [← grown, List.take_append_of_le_length piped.within]
  have lines : Pipeline.lines { state with runner := runner } = state.lines := by
    rw [Pipeline.lines, Pipeline.lines, ← written, List.take_append_of_le_length piped.arrived]
  constructor
  · exact Runner.delivering_invariant.step _ action _ piped.runner taken
  · exact piped.queued.step taken
  · exact piped.server
  · dsimp only
    rw [← grown, List.length_append]
    exact piped.within.trans (Nat.le_add_right _ _)
  · dsimp only
    rw [← written, List.length_append]
    exact piped.arrived.trans (Nat.le_add_right _ _)
  · exact piped.pieces.trans (congrArg piecesOf same.symm)
  · exact piped.tokens
  · exact piped.text.trans (congrArg textAfter same.symm)
  · exact piped.done.trans (congrArg (List.any · isDone) same.symm)
  · intro text isOutcome
    rw [lines]
    exact piped.outcome text isOutcome
  · exact piped.ended

/-- The server takes a step of its own that hands over no token. -/
theorem serverStep (piped : Piped codec state) {server : TranscriptState}
    (carrying : Carrying codec server) (tokens : server.tokens = state.server.tokens)
    (ended : state.outcome.isSome = true → server.place ≠ .starting ∧ server.place ≠ .streaming) :
    Piped codec { state with server := server } :=
  { piped with server := carrying, tokens := tokens.trans piped.tokens, ended := ended }

theorem work (lawful : codec.Lawful) (notJson : codec.parse doneMark = none)
    (piped : Piped codec state) {server : TranscriptState}
    (taken : TranscriptState.work codec typeError streaming state.server = some server) :
    Piped codec { state with server := server } := by
  have carrying := piped.server.work lawful notJson taken
  have ended := piped.ended
  rcases state with ⟨runner, arrived, parsed, ctx, ⟨pipe, place, tokens⟩, outcome⟩
  apply piped.serverStep carrying
  · unfold TranscriptState.work at taken
    split at taken <;> try split at taken
    all_goals cases taken <;> rfl
  · intro isOutcome
    have left := (ended isOutcome).1
    unfold TranscriptState.work at taken
    split at taken
    next isPlace => exact absurd isPlace left
    all_goals try split at taken
    all_goals cases taken <;> exact ⟨nofun, nofun⟩

theorem read (piped : Piped codec state) {count : Nat} {server : TranscriptState}
    (taken : state.server.read count = some server) :
    Piped codec { state with server := server } := by
  have carrying := piped.server.read taken
  rw [TranscriptState.read] at taken
  split at taken
  · cases taken
  · rcases Option.map_eq_some_iff.mp taken with ⟨pipe, -, rfl⟩
    exact piped.serverStep carrying rfl piped.ended

/-- The record at the place of the parser is read, and its piece, if it has one, handed over. -/
theorem advance (piped : Piped codec state) {record : Runner.Emitted} {ctx : StreamCtx}
    {server : TranscriptState}
    (found : state.runner.records[state.parsed]? = some record)
    (streams : state.server.place = .streaming) (carrying : Carrying codec server)
    (handed : server.tokens = state.server.tokens ++ record.piece?.toList)
    (tokens : ctx.tokens = state.ctx.tokens ++ record.piece?.toList)
    (text : ctx.fullText = textOf state.ctx.fullText record)
    (done : ctx.gotDone = (state.ctx.gotDone || isDone record)) :
    Piped codec { state with parsed := state.parsed + 1, ctx := ctx, server := server } := by
  have running := piped.running streams
  constructor
  · exact piped.runner
  · exact piped.queued
  · exact carrying
  · exact (List.getElem?_eq_some_iff.mp found).1
  · exact piped.arrived
  · dsimp only
    rw [tokens, piped.pieces, piecesOf_take found]
  · dsimp only
    rw [handed, tokens, piped.tokens]
  · dsimp only
    rw [text, piped.text, textAfter_take found]
  · dsimp only
    rw [done, piped.done, any_take found]
  · intro final isOutcome
    rw [running] at isOutcome
    cases isOutcome
  · intro isOutcome
    rw [running] at isOutcome
    cases isOutcome

theorem parse (lawful : codec.Lawful) (piped : Piped codec state)
    (taken : state.parse codec streaming = some next) : Piped codec next := by
  rw [Pipeline.parse] at taken
  split at taken
  next streams =>
    rcases Option.bind_eq_some_iff.mp taken with ⟨line, isLine, parsed⟩
    rcases record_of_line lawful piped.runner.output isLine with ⟨record, found, lineOf⟩
    cases record with
    | token piece =>
        rcases @exists_sse codec lawful _
            (@Streaming.textual_tokenEvent streaming piece lineOf.valid) with
          ⟨text, dumped, octets⟩
        have answered : Pipeline.answer codec streaming state.server.pipe
            (state.ctx.tokens ++ [piece]) = some (state.server.pipe.pipe.write
              (Sse.event text)).1 := by
          simp [Pipeline.answer, octets]
        have handed : TranscriptState.token codec streaming piece state.server =
            some { state.server with
              pipe := state.server.pipe.write (Sse.event text)
              tokens := state.server.tokens ++ [piece] } := by
          rw [TranscriptState.token, if_pos ⟨streams, lineOf.valid⟩, octets, Option.map_some]
        have carrying := piped.server.token lawful handed
        have round := @streamParseLine_answer codec _ _ lineOf.encodes
          (state.context codec streaming) _ rfl _ answered
        have advanced := @advance codec state piped (.token piece)
          { state.context codec streaming with tokens := state.ctx.tokens ++ [piece] } _ found
          streams carrying rfl rfl rfl (Bool.or_false _).symm
        have dropped : (state.ctx.tokens ++ [piece]).drop state.ctx.tokens.length = [piece] :=
          List.drop_left
        rw [round, Pipeline.followed] at parsed
        simp only [Pipeline.context, dropped, List.foldl_cons, List.foldl_nil, handed,
          Option.getD_some] at parsed
        split at parsed
        · cases parsed
          exact advanced
        · apply advanced.ends _ parsed
          intro text isOk
          cases isOk
    | done final =>
        rw [streamParseLine_done lineOf.encodes, Pipeline.followed] at parsed
        simp only [Pipeline.context, List.drop_length, List.foldl_nil, if_true] at parsed
        cases parsed
        exact piped.advance found streams piped.server (List.append_nil _).symm
          (List.append_nil _).symm rfl (Bool.or_true _).symm
  · cases taken

theorem complete (piped : Piped codec state) (taken : state.complete = some next) :
    Piped codec next := by
  rw [Pipeline.complete] at taken
  split at taken
  next all =>
    apply piped.ends _ taken
    intro text isOk
    rw [Except.ok.injEq] at isOk
    split at isOk <;> cases isOk
    exact ⟨rfl, all⟩
  · cases taken

theorem fail (piped : Piped codec state) {outcome : Outcome}
    (taken : state.fail outcome = some next) : Piped codec next := by
  unfold Pipeline.fail at taken
  split at taken
  · cases taken
  next notOk =>
    apply piped.ends _ taken
    intro text isOk
    exact absurd isOk (notOk text)

end Piped

theorem piped_invariant (lawful : codec.Lawful) (notJson : codec.parse doneMark = none) :
    (pipeline codec typeError streaming).Invariant (Piped codec) where
  initial := by
    rintro state rfl
    constructor
    · exact Runner.delivering_invariant.initial _ rfl
    · exact ⟨List.prefix_rfl, fun _ => rfl⟩
    · refine ⟨fifo_invariant.initial _ rfl, nofun, [], ⟨List.prefix_rfl, fun _ => rfl⟩, ?_⟩
      exact ⟨List.forall_mem_nil _, rfl⟩
    · exact Nat.zero_le _
    · exact Nat.zero_le _
    · rfl
    · rfl
    · rfl
    · rfl
    · exact nofun
    · exact nofun
  step := by
    intro state action next piped taken
    cases action with
    | runner action =>
        rcases Option.map_eq_some_iff.mp taken with ⟨runner, step, rfl⟩
        exact piped.runnerStep step
    | arrive count =>
        simp only [pipeline, Pipeline.step] at taken
        split at taken <;> cases taken
        next enabled =>
          have running := Option.isNone_iff_eq_none.mp enabled.1
          refine { piped with arrived := enabled.2, outcome := fun text isOutcome => ?_ }
          dsimp only at isOutcome
          rw [running] at isOutcome
          cases isOutcome
    | parse => exact piped.parse lawful taken
    | complete => exact piped.complete taken
    | fail outcome => exact piped.fail taken
    | work =>
        rcases Option.map_eq_some_iff.mp taken with ⟨server, step, rfl⟩
        exact piped.work lawful notJson step
    | read count =>
        rcases Option.map_eq_some_iff.mp taken with ⟨server, step, rfl⟩
        exact piped.read step

/-! ## Delivery to the client -/

namespace Piped

variable {state : Pipeline}

/-- The tokens handed over are the first pieces generated. -/
theorem tokens_prefix (piped : Piped codec state) :
    state.server.tokens <+: state.runner.produced := by
  rw [piped.tokens, piped.pieces]
  apply List.IsPrefix.trans _ (prefix_of_writtenPieces piped.runner piped.queued)
  exact (List.take_prefix _ _).filterMap _

/-- Once the done record has been read, all pieces have been handed over, and the text is the
one that the runner ended with. -/
theorem whole (piped : Piped codec state) (done : state.ctx.gotDone = true) :
    state.server.tokens = state.runner.produced ∧
      state.runner.finalText = some state.ctx.fullText := by
  rw [piped.tokens, piped.pieces, piped.text]
  exact whole_of_done piped.runner (List.take_prefix _ _) (piped.done.symm.trans done)

/-- Before the done record has been read there is no text. -/
theorem textless (piped : Piped codec state) (notDone : state.ctx.gotDone = false) :
    state.ctx.fullText = [] := by
  rw [piped.text]
  exact textAfter_of_notDone (piped.done.symm.trans notDone)

/-- A call that succeeds after a whole response has arrived has read the done record. -/
theorem done_of_arrived (lawful : codec.Lawful) (piped : Piped codec state) {text : Bytes}
    (isOutcome : state.outcome = some (.ok (.ok text)))
    (closed : state.runner.provider = .closed) (sound : state.runner.writeFailed = false)
    (all : state.arrived = state.runner.output.length) : state.ctx.gotDone = true := by
  rcases piped.runner.closed closed sound with ⟨final, -, records⟩
  rcases lineOf_of_lines lawful piped.runner.output with ⟨texts, lineOf, output⟩
  have cut := Lines.split_terminated (free_of_lineOf lineOf)
  have parsed := (piped.outcome text isOutcome).2
  rw [Pipeline.lines, all, List.take_length, output, cut, lineOf.length_eq] at parsed
  rw [piped.done, parsed, List.take_length, records]
  simp [isDone]

end Piped

/-- In every state of a streaming request, whatever the interleaving of the model, the
content provider, the network, the parser, the worker and the reader: what the client has
decoded are the first pieces that the model generated, in order and none twice.  Once the
client has found the end of a pipe that was not aborted, it has decoded every piece that the
manager handed over.  If the call of the manager then succeeded and the done record was read,
these are all pieces, and the text is the one that the model ended with; without a done record
the text is empty, and the response did not arrive as a whole. -/
theorem pipeline_delivers (codec : Codec) (lawful : codec.Lawful)
    (notJson : codec.parse doneMark = none) (typeError : Json → Bytes) (streaming : Streaming)
    {state : Pipeline} (reachable : (pipeline codec typeError streaming).Reachable state) :
    tokensOf codec state.server.pipe.reads.flatten <+: state.runner.produced ∧
      ([] ∈ state.server.pipe.reads → state.server.pipe.pipe.aborted = false →
        tokensOf codec state.server.pipe.reads.flatten = state.ctx.tokens ∧
          ∀ text, state.outcome = some (.ok (.ok text)) →
            (state.ctx.gotDone = true →
              tokensOf codec state.server.pipe.reads.flatten = state.runner.produced ∧
                state.runner.finalText = some text) ∧
            (state.ctx.gotDone = false → text = [] ∧
              ¬(state.runner.provider = .closed ∧ state.runner.writeFailed = false ∧
                state.arrived = state.runner.output.length))) := by
  have piped := (@piped_invariant codec typeError streaming lawful notJson).of_reachable reachable
  rcases piped.server.tokensOf_reads with ⟨early, all⟩
  refine ⟨early.trans piped.tokens_prefix, fun ended sound => ?_⟩
  have decoded := all ended sound
  refine ⟨decoded.trans piped.tokens, fun text isOutcome => ⟨fun done => ?_, fun notDone => ?_⟩⟩
  · rw [decoded, ← (piped.outcome text isOutcome).1]
    exact piped.whole done
  · refine ⟨?_, ?_⟩
    · rw [← (piped.outcome text isOutcome).1]
      exact piped.textless notDone
    · intro arrived
      have done := piped.done_of_arrived lawful isOutcome arrived.1 arrived.2.1 arrived.2.2
      rw [notDone] at done
      cases done

/-- A request for one piece: its record and the final one arrive together, cut within the
final line. -/
def onePiece : List PipelineAction :=
  [.runner (.onToken (bytes "Hi")), .work, .runner .call, .runner (.write true), .arrive 10,
    .runner (.finish (bytes "Hi")), .runner .lock, .runner (.write true), .arrive 8, .parse,
    .runner .release, .arrive 23, .parse, .read 60, .complete, .work, .work, .read 1000, .read 1]

/-- The streaming request of a chat. -/
def oneChat : Streaming := ⟨.chatCompletions, 1, 2, bytes "m", by decide⟩

/-- A machine for that request. -/
def onePipeline : Machine Pipeline PipelineAction :=
  pipeline JsonText.reference (fun _ => bytes "invalid UTF-8 byte") oneChat

/-- The client of that request reads the piece. -/
theorem pipeline_delivers_onePiece :
    ∃ state, onePipeline.run (.fresh oneChat) onePiece = some state ∧
      tokensOf JsonText.reference state.server.pipe.reads.flatten = [bytes "Hi"] ∧
      state.runner.finalText = some (bytes "Hi") := by
  cases ran : onePipeline.run (.fresh oneChat) onePiece with
  | none =>
      have ends : (onePipeline.run (.fresh oneChat) onePiece).isSome = true := by decide +kernel
      rw [ran] at ends
      cases ends
  | some state =>
      have last : (some state).map (fun state => (decide ([] ∈ state.server.pipe.reads),
          state.server.pipe.pipe.aborted, state.ctx.gotDone, state.runner.produced)) =
          some (true, false, true, [bytes "Hi"]) := by
        rw [← ran]
        decide +kernel
      have outcome : (some state).map (fun state => state.outcome.map fun outcome =>
          outcome.toOption.map Except.toOption) = some (some (some (some (bytes "Hi")))) := by
        rw [← ran]
        decide +kernel
      rw [Option.map_some, Option.some.injEq, Prod.mk.injEq, Prod.mk.injEq, Prod.mk.injEq,
        decide_eq_true_eq] at last
      rcases last with ⟨ended, sound, done, produced⟩
      have isOutcome : state.outcome = some (.ok (.ok (bytes "Hi"))) := by
        rw [Option.map_some, Option.some.injEq] at outcome
        generalize state.outcome = reported at outcome ⊢
        rcases reported with _ | _ | _ | text <;> cases outcome
        rfl
      have reachable : onePipeline.Reachable state := ⟨_, rfl, Machine.reaches_of_run ran⟩
      have delivered := (pipeline_delivers JsonText.reference JsonText.reference_lawful
        (by decide +kernel) _ _ reachable).2 ended sound
      rw [produced] at delivered
      exact ⟨state, rfl, (delivered.2 _ isOutcome).1 done⟩

end Cllama.Boundary
