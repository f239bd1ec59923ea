import Cllama.Api.Transcript
import Cllama.Library.JsonTextLawful

/-!
# The shape of the transcript

What the client reads is the role event of a chat, one event a token, at most one error
event and the final mark, or whole events from the front of these if the pipe was aborted.
The invariant compares the payloads that the pipe took with the events written so far.
The only way out is an exception whose message cannot be serialised: the handler that
reports it throws then.
-/

namespace Cllama.Api

open Cllama.Library Cllama.Core

variable {codec : Codec} {typeError : Json → Bytes} {streaming : Streaming} {outcome : Outcome}

/-! ## Events as text -/

theorem Streaming.valid_streamId : Utf8.valid streaming.streamId = true := by
  rw [streamId]
  cases streaming.endpoint <;> exact Utf8.valid_append (by decide) (Utf8.valid_digits _)

theorem Streaming.valid_object : Utf8.valid streaming.object = true := by
  rw [object]
  cases streaming.endpoint <;> decide

theorem Streaming.textual_event {choice : Json} (textual : choice.Textual) :
    (streaming.event choice).Textual := by
  apply Json.Textual.ofKeys [bytes "choices", bytes "created", bytes "id", bytes "model",
    bytes "object"] rfl (by decide) (by decide)
  refine ⟨.arr (List.forall_mem_singleton.mpr textual), .int _, .str valid_streamId,
    .str streaming.modelValid, .str valid_object⟩

theorem Streaming.textual_deltaChoice {key : String} {text : Bytes}
    (keyValid : Utf8.valid (bytes key) = true) (textValid : Utf8.valid text = true) :
    (deltaChoice key text).Textual := by
  have delta : (Json.obj [(bytes key, .str text)]).Textual := by
    apply Json.Textual.ofKeys [bytes key] rfl (List.pairwise_singleton _ _)
    · exact List.forall_mem_singleton.mpr keyValid
    · exact Json.Textual.str textValid
  apply Json.Textual.ofKeys [bytes "delta", bytes "finish_reason", bytes "index"] rfl
    (by decide) (by decide)
  exact ⟨delta, .null, .int _⟩

theorem Streaming.textual_textChoice {text : Bytes} (textValid : Utf8.valid text = true) :
    (textChoice text).Textual := by
  apply Json.Textual.ofKeys [bytes "finish_reason", bytes "index", bytes "logprobs",
    bytes "text"] rfl (by decide) (by decide)
  exact ⟨.null, .int _, .null, .str textValid⟩

theorem Streaming.textual_roleEvent : streaming.roleEvent.Textual :=
  textual_event (textual_deltaChoice (by decide) (by decide))

theorem Streaming.textual_tokenEvent {token : Bytes} (valid : Utf8.valid token = true) :
    (streaming.tokenEvent token).Textual := by
  rw [tokenEvent]
  cases streaming.endpoint with
  | completions => exact textual_event (textual_textChoice valid)
  | chatCompletions => exact textual_event (textual_deltaChoice (by decide) valid)

theorem textual_errorEvent {message : Bytes} (valid : Utf8.valid message = true) :
    (errorEvent message).Textual := by
  apply Json.Textual.ofKeys [bytes "error"] rfl (by decide) (by decide)
  exact Json.Textual.str valid

/-- The event of an error can be serialised exactly when its message is well-formed. -/
theorem dump_errorEvent_isSome (lawful : codec.Lawful) (message : Bytes) :
    (codec.dump (errorEvent message)).isSome = true ↔ Utf8.valid message = true := by
  constructor
  · intro written
    rcases Option.isSome_iff_exists.mp written with ⟨text, dumped⟩
    rcases lawful.wellFormed _ text dumped with _ | _ | _ | _ | _ | _ | ⟨-, values⟩
    rcases values (bytes "error", .str message) List.mem_cons_self with _ | _ | _ | _ | valid
    exact valid
  · intro valid
    exact lawful.dump_isSome _ (textual_errorEvent valid)

/-! ## The expected transcript -/

/-- The events before the first token. -/
def Streaming.opening (streaming : Streaming) : List Json :=
  match streaming.endpoint with
  | .completions => []
  | .chatCompletions => [streaming.roleEvent]

/-- The message of the error event.  That of a returned error gives way to the message of
the exception if it cannot be serialised. -/
def errorMessage (codec : Codec) (typeError : Json → Bytes) : Outcome → Option Bytes
  | .ok (.ok _) => none
  | .ok (.error error) =>
      match codec.dump (errorEvent error.message) with
      | some _ => some error.message
      | none => some (typeError (errorEvent error.message))
  | .error what => some what

/-- The events of a request, without the final mark: the role event of a chat, one event a
token, and one error event exactly when the call failed or threw. -/
def expected (codec : Codec) (typeError : Json → Bytes) (streaming : Streaming)
    (outcome : Outcome) (tokens : List Bytes) : List Json :=
  streaming.opening ++ tokens.map streaming.tokenEvent ++
    (errorMessage codec typeError outcome).toList.map errorEvent

/-- The serialised events. -/
def Dumps (codec : Codec) : List Json → List Bytes → Prop :=
  List.Forall₂ fun json text => codec.dump json = some text

/-- The token of an event. -/
def tokenOf (json : Json) : Option Bytes :=
  match json.find "choices" with
  | some (.arr (choice :: _)) =>
      match choice.find "delta" with
      | some delta => (delta.find "content").bind Json.getString
      | none => (choice.find "text").bind Json.getString
  | _ => none

/-- A client's reading of a transcript. -/
def tokensOf (codec : Codec) (stream : Bytes) : List Bytes :=
  (Sse.decode stream).filterMap fun data => (codec.parse data).bind tokenOf

theorem tokenOf_tokenEvent (token : Bytes) :
    tokenOf (streaming.tokenEvent token) = some token := by
  rw [Streaming.tokenEvent]
  cases streaming.endpoint <;> rfl

theorem filterMap_tokenOf_opening : streaming.opening.filterMap tokenOf = [] := by
  rw [Streaming.opening]
  cases streaming.endpoint <;> rfl

theorem filterMap_tokenOf_expected (tokens : List Bytes) :
    (expected codec typeError streaming outcome tokens).filterMap tokenOf = tokens := by
  have errors : ∀ messages : List Bytes, (messages.map errorEvent).filterMap tokenOf = [] := by
    intro messages
    rw [List.filterMap_map]
    exact List.filterMap_eq_nil_iff.mpr fun message _ => rfl
  rw [expected, List.filterMap_append, List.filterMap_append, filterMap_tokenOf_opening, errors,
    List.filterMap_map]
  simp only [Function.comp_def, tokenOf_tokenEvent, List.filterMap_some, List.nil_append,
    List.append_nil]

theorem Dumps.append {left right : List Json} {leftTexts rightTexts : List Bytes}
    (leftDumps : Dumps codec left leftTexts) (rightDumps : Dumps codec right rightTexts) :
    Dumps codec (left ++ right) (leftTexts ++ rightTexts) :=
  List.rel_append leftDumps rightDumps

theorem Dumps.isSome {jsons : List Json} {texts : List Bytes} (dumps : Dumps codec jsons texts) :
    ∀ json ∈ jsons, (codec.dump json).isSome = true := by
  induction dumps with
  | nil => exact List.forall_mem_nil _
  | cons dumped _ ih => exact List.forall_mem_cons.mpr ⟨by rw [dumped]; rfl, ih⟩

theorem Dumps.newline_not_mem (lawful : codec.Lawful) {jsons : List Json} {texts : List Bytes}
    (dumps : Dumps codec jsons texts) : ∀ text ∈ texts, Sse.newline ∉ text := by
  induction dumps with
  | nil => exact List.forall_mem_nil _
  | cons dumped _ ih =>
      exact List.forall_mem_cons.mpr ⟨lawful.newline_not_mem _ _ dumped, ih⟩

/-- Parsing serialised events gives back their tokens. -/
theorem Dumps.tokens (lawful : codec.Lawful) {jsons : List Json} {texts : List Bytes}
    (dumps : Dumps codec jsons texts) (textual : ∀ json ∈ jsons, json.Textual) :
    (texts.filterMap fun data => (codec.parse data).bind tokenOf) = jsons.filterMap tokenOf := by
  induction dumps with
  | nil => rfl
  | cons dumped _ ih =>
      rw [List.forall_mem_cons] at textual
      rw [List.filterMap_cons, List.filterMap_cons, lawful.parse_dump _ _ textual.1 dumped,
        ih textual.2]
      rfl

theorem textual_opening : ∀ json ∈ streaming.opening, json.Textual := by
  rw [Streaming.opening]
  cases streaming.endpoint with
  | completions => exact List.forall_mem_nil _
  | chatCompletions => exact List.forall_mem_singleton.mpr Streaming.textual_roleEvent

/-! ## What the pipe took -/

/-- The pipe took the writes, or, once it is aborted, the first ones. -/
def Accepted (pipe : PipeState) (writes : List Bytes) : Prop :=
  pipe.payloads <+: writes ∧ (pipe.pipe.aborted = false → pipe.payloads = writes)

theorem Accepted.write {pipe : PipeState} {writes : List Bytes} (accepted : Accepted pipe writes)
    (opened : pipe.pipe.done = false) (data : Bytes) :
    Accepted (pipe.write data) (writes ++ [data]) := by
  rcases accepted with ⟨front, whole⟩
  rw [Accepted, PipeState.write]
  cases aborted : pipe.pipe.aborted with
  | true =>
      rw [IOPipe.write_of_over data (Or.inl aborted)]
      refine ⟨?_, fun sound => ?_⟩
      · simpa using front.trans (List.prefix_append writes [data])
      · dsimp only at sound
        rw [aborted] at sound
        cases sound
  | false =>
      have isOver : ¬(false = true ∨ pipe.pipe.done = true) := by
        rw [opened]
        decide
      dsimp only
      rw [if_neg isOver, whole aborted]
      exact ⟨List.prefix_rfl, fun _ => rfl⟩

/-- Some events have been written to a pipe, perhaps with the final mark. -/
def Written (codec : Codec) (pipe : PipeState) (jsons : List Json) (marked : Bool) : Prop :=
  ∃ texts, Dumps codec jsons texts ∧
    Accepted pipe (texts.map Sse.event ++ if marked then [Sse.event doneMark] else [])

theorem Written.write {pipe : PipeState} {jsons : List Json}
    (written : Written codec pipe jsons false) (opened : pipe.pipe.done = false) {json : Json}
    {text : Bytes} (dumped : codec.dump json = some text) :
    Written codec (pipe.write (Sse.event text)) (jsons ++ [json]) false := by
  rcases written with ⟨texts, dumps, accepted⟩
  refine ⟨texts ++ [text], dumps.append (.cons dumped .nil), ?_⟩
  have grown := accepted.write opened (Sse.event text)
  simpa using grown

theorem Written.mark {pipe : PipeState} {jsons : List Json}
    (written : Written codec pipe jsons false) (opened : pipe.pipe.done = false) :
    Written codec (pipe.write (Sse.event doneMark)) jsons true := by
  rcases written with ⟨texts, dumps, accepted⟩
  refine ⟨texts, dumps, ?_⟩
  have grown := accepted.write opened (Sse.event doneMark)
  simpa using grown

theorem Written.congr {pipe next : PipeState} {jsons : List Json} {marked : Bool}
    (written : Written codec pipe jsons marked) (payloads : next.payloads = pipe.payloads)
    (aborted : next.pipe.aborted = pipe.pipe.aborted) : Written codec next jsons marked := by
  rcases written with ⟨texts, dumps, front, whole⟩
  refine ⟨texts, dumps, ?_, ?_⟩
  · rwa [payloads]
  · rwa [payloads, aborted]

/-! ## The invariant -/

/-- The events written when the worker stands at a place. -/
def TranscriptState.events (codec : Codec) (typeError : Json → Bytes) (streaming : Streaming)
    (outcome : Outcome) (state : TranscriptState) : List Json :=
  match state.place with
  | .starting => []
  | .ending | .closing | .finished => expected codec typeError streaming outcome state.tokens
  | _ => streaming.opening ++ state.tokens.map streaming.tokenEvent

/-- The final mark has been written. -/
def Place.marked : Place → Bool
  | .closing | .finished => true
  | _ => false

/-- How the worker can have come to a place. -/
def TranscriptState.Standing (codec : Codec) (typeError : Json → Bytes) (streaming : Streaming)
    (outcome : Outcome) (state : TranscriptState) : Prop :=
  match state.place with
  | .starting => streaming.endpoint = .chatCompletions ∧ state.tokens = []
  | .reporting message => ∃ code, outcome = .ok (.error ⟨code, message⟩)
  | .catching what =>
      Utf8.valid what = true ∧ errorMessage codec typeError outcome = some what
  | .terminated => False
  | _ => True

/-- The invariant of a request. -/
structure Writing (codec : Codec) (typeError : Json → Bytes) (streaming : Streaming)
    (outcome : Outcome) (state : TranscriptState) : Prop where
  fifo : Fifo state.pipe
  tokens : ∀ token ∈ state.tokens, Utf8.valid token = true
  closed : state.pipe.pipe.done = true ↔ state.place = .finished
  standing : state.Standing codec typeError streaming outcome
  written : Written codec state.pipe (state.events codec typeError streaming outcome)
    state.place.marked

theorem PipeState.write_done (pipe : PipeState) (data : Bytes) :
    (pipe.write data).pipe.done = pipe.pipe.done := by
  by_cases isOver : pipe.pipe.aborted = true ∨ pipe.pipe.done = true
  · rw [write, IOPipe.write_of_over data isOver]
  · rw [write, IOPipe.write_of_open data isOver]
    simp only [not_or, Bool.not_eq_true] at isOver
    exact isOver.2.symm

theorem exists_sse (lawful : codec.Lawful) {json : Json} (textual : json.Textual) :
    ∃ text, codec.dump json = some text ∧ sse codec json = some (Sse.event text) := by
  rcases Option.isSome_iff_exists.mp (lawful.dump_isSome json textual) with ⟨text, dumped⟩
  exact ⟨text, dumped, by rw [sse, dumped, Option.map_some]⟩

theorem sse_eq_some {json : Json} {octets : Bytes} (written : sse codec json = some octets) :
    ∃ text, codec.dump json = some text ∧ octets = Sse.event text := by
  rcases Option.map_eq_some_iff.mp written with ⟨text, dumped, rfl⟩
  exact ⟨text, dumped, rfl⟩

namespace Writing

variable {state next : TranscriptState}

theorem opened (writing : Writing codec typeError streaming outcome state)
    (running : state.place ≠ .finished) : state.pipe.pipe.done = false := by
  apply eq_false_of_ne_true
  intro done
  exact running (writing.closed.mp done)

/-- A worker that moves on with an open pipe. -/
theorem closed_of_opened {pipe : PipeState} {place : Place} (opened : pipe.pipe.done = false)
    (running : place ≠ .finished) : pipe.pipe.done = true ↔ place = .finished := by
  rw [opened]
  exact iff_of_false Bool.false_ne_true running

theorem errorMessage_of_dump {code : ErrorCode} {message text : Bytes}
    (dumped : codec.dump (errorEvent message) = some text) :
    errorMessage codec typeError (.ok (.error ⟨code, message⟩)) = some message := by
  rw [errorMessage, dumped]

theorem expected_of_message {message : Bytes} (tokens : List Bytes)
    (reported : errorMessage codec typeError outcome = some message) :
    expected codec typeError streaming outcome tokens =
      streaming.opening ++ tokens.map streaming.tokenEvent ++ [errorEvent message] := by
  rw [expected, reported]
  rfl

theorem ne_finished_of_unmarked {place : Place} (unmarked : place.marked = false) :
    place ≠ .finished := by
  rintro rfl
  cases unmarked

/-- A worker that writes an event and moves on: what it has to have written at the next place
is one event more. -/
theorem writeEvent {pipe : PipeState} {place nextPlace : Place}
    {tokens nextTokens : List Bytes} {json : Json} {text : Bytes}
    (writing : Writing codec typeError streaming outcome ⟨pipe, place, tokens⟩)
    (dumped : codec.dump json = some text) (unmarked : place.marked = false)
    (nextUnmarked : nextPlace.marked = false)
    (valid : ∀ token ∈ nextTokens, Utf8.valid token = true)
    (standing : TranscriptState.Standing codec typeError streaming outcome
      ⟨pipe.write (Sse.event text), nextPlace, nextTokens⟩)
    (grown : TranscriptState.events codec typeError streaming outcome
        ⟨pipe.write (Sse.event text), nextPlace, nextTokens⟩ =
      TranscriptState.events codec typeError streaming outcome ⟨pipe, place, tokens⟩ ++ [json]) :
    Writing codec typeError streaming outcome
      ⟨pipe.write (Sse.event text), nextPlace, nextTokens⟩ := by
  have stillOpen : pipe.pipe.done = false := writing.opened (ne_finished_of_unmarked unmarked)
  have written := writing.written
  dsimp only at written
  rw [unmarked] at written
  constructor
  · exact writing.fifo.write _
  · exact valid
  · exact closed_of_opened ((PipeState.write_done pipe _).trans stillOpen)
      (ne_finished_of_unmarked nextUnmarked)
  · exact standing
  · dsimp only
    rw [grown, nextUnmarked]
    exact written.write stillOpen dumped

theorem work (lawful : codec.Lawful) (typeErrorValid : ∀ json, Utf8.valid (typeError json) = true)
    (writing : Writing codec typeError streaming outcome state)
    (taken : TranscriptState.work codec typeError streaming state = some next) :
    Writing codec typeError streaming outcome next := by
  rcases state with ⟨pipe, place, tokens⟩
  have opened := writing.opened
  have ⟨fifo, valid, closed, standing, written⟩ := writing
  cases place with
  | starting =>
      rcases standing with ⟨chat, noTokens⟩
      rcases @exists_sse codec lawful _ (@Streaming.textual_roleEvent streaming) with
        ⟨text, dumped, octets⟩
      simp only [TranscriptState.work, octets, Option.some.injEq] at taken
      subst taken
      dsimp only at noTokens
      apply writing.writeEvent dumped rfl
      · rfl
      · exact valid
      · trivial
      · simp [TranscriptState.events, Streaming.opening, chat, noTokens]
  | reporting message =>
      rcases standing with ⟨code, isOutcome⟩
      cases octets : sse codec (errorEvent message) with
      | some event =>
          simp only [TranscriptState.work, octets, Option.some.injEq] at taken
          subst taken
          rcases sse_eq_some octets with ⟨text, dumped, rfl⟩
          apply writing.writeEvent dumped rfl
          · rfl
          · exact valid
          · trivial
          · apply expected_of_message tokens
            rw [isOutcome, errorMessage_of_dump dumped]
      | none =>
          simp only [TranscriptState.work, octets, Option.some.injEq] at taken
          subst taken
          have dumped := Option.map_eq_none_iff.mp octets
          have stillOpen := opened nofun
          refine ⟨fifo, valid, closed_of_opened stillOpen nofun, ⟨typeErrorValid _, ?_⟩, written⟩
          rw [isOutcome, errorMessage, dumped]
  | catching what =>
      rcases standing with ⟨whatValid, reported⟩
      rcases @exists_sse codec lawful _ (textual_errorEvent whatValid) with
        ⟨text, dumped, octets⟩
      simp only [TranscriptState.work, octets, Option.some.injEq] at taken
      subst taken
      apply writing.writeEvent dumped rfl
      · rfl
      · exact valid
      · trivial
      · exact expected_of_message tokens reported
  | ending =>
      cases taken
      have stillOpen := opened nofun
      refine ⟨fifo.write _, valid, ?_, trivial, written.mark stillOpen⟩
      exact closed_of_opened ((PipeState.write_done pipe _).trans stillOpen) nofun
  | closing =>
      cases taken
      exact ⟨fifo.close, valid, iff_of_true rfl rfl, trivial, written.congr rfl rfl⟩
  | streaming => cases taken
  | finished => cases taken
  | terminated => cases taken

theorem token (writing : Writing codec typeError streaming outcome state) {piece : Bytes}
    (taken : TranscriptState.token codec streaming piece state = some next) :
    Writing codec typeError streaming outcome next := by
  rcases state with ⟨pipe, place, tokens⟩
  rw [TranscriptState.token] at taken
  split at taken
  next enabled =>
    rcases enabled with ⟨rfl, pieceValid⟩
    rcases Option.map_eq_some_iff.mp taken with ⟨octets, serialised, rfl⟩
    rcases sse_eq_some serialised with ⟨text, dumped, rfl⟩
    apply writing.writeEvent dumped rfl
    · rfl
    · exact List.forall_mem_append.mpr
        ⟨writing.tokens, List.forall_mem_singleton.mpr pieceValid⟩
    · trivial
    · simp [TranscriptState.events]
  · cases taken

theorem returned (sound : ∀ what, outcome = .error what → Utf8.valid what = true)
    (writing : Writing codec typeError streaming outcome state)
    (taken : TranscriptState.returned outcome state = some next) :
    Writing codec typeError streaming outcome next := by
  rcases state with ⟨pipe, place, tokens⟩
  have opened := writing.opened
  rcases writing with ⟨fifo, valid, closed, standing, written⟩
  unfold TranscriptState.returned at taken
  split at taken
  next streams =>
    cases streams
    have stillOpen := opened (by simp)
    split at taken
    · cases taken
      refine ⟨fifo, valid, closed_of_opened stillOpen (by simp), trivial, ?_⟩
      simpa [TranscriptState.events, Place.marked, expected, errorMessage] using written
    next error =>
      cases taken
      exact ⟨fifo, valid, closed_of_opened stillOpen (by simp), ⟨error.code, rfl⟩, written⟩
    next what =>
      cases taken
      exact ⟨fifo, valid, closed_of_opened stillOpen (by simp), ⟨sound what rfl, rfl⟩, written⟩
  · cases taken

theorem read (writing : Writing codec typeError streaming outcome state) {count : Nat}
    (taken : state.read count = some next) :
    Writing codec typeError streaming outcome next := by
  rw [TranscriptState.read] at taken
  split at taken
  · cases taken
  · rcases Option.map_eq_some_iff.mp taken with ⟨pipe, reads, rfl⟩
    have fifo := writing.fifo.read reads
    rcases writing with ⟨-, valid, closed, standing, written⟩
    rw [PipeState.read] at reads
    split at reads
    · cases reads
    · cases reads
      rcases IOPipe.read_frame count state.pipe.pipe with ⟨done, aborted⟩
      refine ⟨fifo, valid, ?_, standing, written.congr rfl aborted⟩
      dsimp only
      rw [done]
      exact closed

end Writing

theorem writing_invariant (lawful : codec.Lawful)
    (typeErrorValid : ∀ json, Utf8.valid (typeError json) = true)
    (sound : ∀ what, outcome = .error what → Utf8.valid what = true) :
    (transcript codec typeError streaming outcome).Invariant
      (Writing codec typeError streaming outcome) where
  initial := by
    rintro state rfl
    have nothing : Written codec .fresh [] false := ⟨[], .nil, List.prefix_rfl, fun _ => rfl⟩
    refine ⟨fifo_invariant.initial _ rfl, List.forall_mem_nil _, ?_, ?_, ?_⟩
    · apply Writing.closed_of_opened rfl
      rw [TranscriptState.fresh]
      cases streaming.endpoint <;> exact nofun
    · cases endpoint : streaming.endpoint <;>
        simp [TranscriptState.Standing, TranscriptState.fresh, endpoint]
    · cases endpoint : streaming.endpoint <;>
        simpa [TranscriptState.fresh, TranscriptState.events, Streaming.opening, Place.marked,
          endpoint] using nothing
  step := by
    intro state action next writing taken
    cases action with
    | work => exact writing.work lawful typeErrorValid taken
    | token piece => exact writing.token taken
    | returned => exact writing.returned sound taken
    | read count => exact writing.read taken

/-! ## The end of the stream -/

/-- The worker can come to its end. -/
def Finishes (codec : Codec) (typeError : Json → Bytes) (streaming : Streaming)
    (outcome : Outcome) (state : TranscriptState) : Prop :=
  ∃ next, (transcript codec typeError streaming outcome).Reaches state next ∧
    next.place = .finished

namespace Finishes

variable {pipe : PipeState} {tokens : List Bytes}

theorem of_step {state next : TranscriptState} (action : TranscriptAction)
    (taken : state.step codec typeError streaming outcome action = some next)
    (finishes : Finishes codec typeError streaming outcome next) :
    Finishes codec typeError streaming outcome state := by
  rcases finishes with ⟨last, reaches, finished⟩
  exact ⟨last, .head ⟨action, taken⟩ reaches, finished⟩

theorem closing : Finishes codec typeError streaming outcome ⟨pipe, .closing, tokens⟩ :=
  ⟨⟨pipe.close, .finished, tokens⟩, .single ⟨.work, rfl⟩, rfl⟩

theorem ending : Finishes codec typeError streaming outcome ⟨pipe, .ending, tokens⟩ :=
  of_step .work rfl closing

theorem catching (lawful : codec.Lawful) {what : Bytes} (valid : Utf8.valid what = true) :
    Finishes codec typeError streaming outcome ⟨pipe, .catching what, tokens⟩ := by
  rcases @exists_sse codec lawful _ (textual_errorEvent valid) with ⟨text, -, octets⟩
  have taken : TranscriptState.work codec typeError streaming ⟨pipe, .catching what, tokens⟩ =
      some ⟨pipe.write (Sse.event text), .ending, tokens⟩ := by
    simp [TranscriptState.work, octets]
  exact of_step .work taken ending

theorem reporting (lawful : codec.Lawful)
    (typeErrorValid : ∀ json, Utf8.valid (typeError json) = true) {message : Bytes} :
    Finishes codec typeError streaming outcome ⟨pipe, .reporting message, tokens⟩ := by
  cases octets : sse codec (errorEvent message) with
  | some text =>
      have taken :
          TranscriptState.work codec typeError streaming ⟨pipe, .reporting message, tokens⟩ =
            some ⟨pipe.write text, .ending, tokens⟩ := by
        simp [TranscriptState.work, octets]
      exact of_step .work taken ending
  | none =>
      have taken :
          TranscriptState.work codec typeError streaming ⟨pipe, .reporting message, tokens⟩ =
            some ⟨pipe, .catching (typeError (errorEvent message)), tokens⟩ := by
        simp [TranscriptState.work, octets]
      exact of_step .work taken (catching lawful (typeErrorValid _))

theorem streams (lawful : codec.Lawful)
    (typeErrorValid : ∀ json, Utf8.valid (typeError json) = true)
    (sound : ∀ what, outcome = .error what → Utf8.valid what = true) :
    Finishes codec typeError streaming outcome ⟨pipe, .streaming, tokens⟩ := by
  rcases outcome with what | error | text
  · exact of_step .returned rfl (catching lawful (sound what rfl))
  · exact of_step .returned rfl (reporting lawful typeErrorValid)
  · exact of_step .returned rfl ending

theorem starting (lawful : codec.Lawful)
    (typeErrorValid : ∀ json, Utf8.valid (typeError json) = true)
    (sound : ∀ what, outcome = .error what → Utf8.valid what = true) :
    Finishes codec typeError streaming outcome ⟨pipe, .starting, tokens⟩ := by
  rcases @exists_sse codec lawful _ (@Streaming.textual_roleEvent streaming) with
    ⟨text, -, octets⟩
  have taken : TranscriptState.work codec typeError streaming ⟨pipe, .starting, tokens⟩ =
      some ⟨pipe.write (Sse.event text), .streaming, tokens⟩ := by
    simp [TranscriptState.work, octets]
  exact of_step .work taken (streams lawful typeErrorValid sound)

end Finishes

/-- The worker comes to its end from wherever it stands. -/
theorem reaches_finished (lawful : codec.Lawful)
    (typeErrorValid : ∀ json, Utf8.valid (typeError json) = true)
    (sound : ∀ what, outcome = .error what → Utf8.valid what = true) {state : TranscriptState}
    (standing : state.Standing codec typeError streaming outcome) :
    Finishes codec typeError streaming outcome state := by
  rcases state with ⟨pipe, place, tokens⟩
  cases place with
  | starting => exact .starting lawful typeErrorValid sound
  | streaming => exact .streams lawful typeErrorValid sound
  | reporting message => exact .reporting lawful typeErrorValid
  | catching what => exact .catching lawful standing.1
  | ending => exact .ending
  | closing => exact .closing
  | finished => exact ⟨_, .refl, rfl⟩
  | terminated => cases standing

/-- A read of a closed pipe always returns. -/
theorem moves_read {pipe : PipeState} (done : pipe.pipe.done = true) (tokens : List Bytes)
    (count : Nat) :
    (transcript codec typeError streaming outcome).Moves ⟨pipe, .finished, tokens⟩
      ⟨{ pipe with
          pipe := (pipe.pipe.read (count + 1)).2
          reads := pipe.reads ++ [(pipe.pipe.read (count + 1)).1] }, .finished, tokens⟩ := by
  have ready : pipe.pipe.ready = true := by
    rw [IOPipe.ready, done, Bool.or_true]
  refine ⟨.read (count + 1), ?_⟩
  simp [transcript, TranscriptState.step, TranscriptState.read, PipeState.read, ready]

/-- The client drains a closed pipe with one read and finds the end with the next. -/
theorem reaches_eof {state : TranscriptState} (finished : state.place = .finished)
    (done : state.pipe.pipe.done = true) :
    ∃ next, (transcript codec typeError streaming outcome).Reaches state next ∧
      [] ∈ next.pipe.reads := by
  rcases state with ⟨pipe, place, tokens⟩
  cases finished
  have drained : (pipe.pipe.read (pipe.pipe.buf.length + 1)).2.buf = [] := by
    rw [IOPipe.read]
    split
    next empty => exact empty
    next => exact List.drop_eq_nil_of_le (Nat.le_succ _)
  have stillDone := (IOPipe.read_frame (pipe.pipe.buf.length + 1) pipe.pipe).1.trans done
  have first := @moves_read codec typeError streaming outcome pipe done tokens
    pipe.pipe.buf.length
  have second := @moves_read codec typeError streaming outcome
    { pipe with
      pipe := (pipe.pipe.read (pipe.pipe.buf.length + 1)).2
      reads := pipe.reads ++ [(pipe.pipe.read (pipe.pipe.buf.length + 1)).1] } stillDone tokens 0
  refine ⟨_, .head first (.single second), ?_⟩
  rw [IOPipe.read, if_pos drained]
  exact List.mem_append_right _ List.mem_cons_self

/-- A process that is gone does nothing. -/
theorem reaches_of_terminated {state next : TranscriptState}
    (terminated : state.place = .terminated)
    (reaches : (transcript codec typeError streaming outcome).Reaches state next) :
    next = state := by
  rcases reaches.cases_head with same | ⟨middle, ⟨action, taken⟩, -⟩
  · exact same.symm
  · rcases state with ⟨pipe, place, tokens⟩
    cases terminated
    cases action <;> cases taken

/-! ## The guarantee -/

/-- The end of the stream can be reached, and once the client has found it, the client has
read the expected events and the final mark, and decodes the tokens; or, if the pipe was
aborted, whole events from the front of these, with the first tokens. -/
structure Shaped (codec : Codec) (typeError : Json → Bytes) (streaming : Streaming)
    (outcome : Outcome) (state : TranscriptState) : Prop where
  ends : ∃ next, (transcript codec typeError streaming outcome).Reaches state next ∧
    [] ∈ next.pipe.reads
  events : [] ∈ state.pipe.reads →
    ∃ texts, Dumps codec (expected codec typeError streaming outcome state.tokens) texts ∧
      (state.pipe.pipe.aborted = false →
        state.pipe.reads.flatten = (texts ++ [doneMark]).flatMap Sse.event ∧
          tokensOf codec state.pipe.reads.flatten = state.tokens) ∧
      (state.pipe.pipe.aborted = true →
        ∃ front, front <+: texts ++ [doneMark] ∧
          state.pipe.reads.flatten = front.flatMap Sse.event ∧
            tokensOf codec state.pipe.reads.flatten <+: state.tokens)

/-- An exception whose message cannot be serialised ends the process. -/
theorem reaches_terminated {what : Bytes} (lawful : codec.Lawful)
    (malformed : ¬Utf8.valid what = true) :
    ∃ state, (transcript codec typeError streaming (.error what)).Reachable state ∧
      state.place = .terminated ∧ state.pipe.reads = [] := by
  have lost : sse codec (errorEvent what) = none := by
    rw [← dump_errorEvent_isSome lawful, Option.not_isSome_iff_eq_none] at malformed
    rw [sse, malformed, Option.map_none]
  have ends : ∀ pipe, (transcript codec typeError streaming (.error what)).Reaches
      ⟨pipe, .streaming, []⟩ ⟨pipe, .terminated, []⟩ := by
    intro pipe
    refine .head ⟨.returned, rfl⟩ (.single ⟨.work, ?_⟩)
    simp [transcript, TranscriptState.step, TranscriptState.work, lost]
  cases endpoint : streaming.endpoint with
  | completions =>
      refine ⟨⟨.fresh, .terminated, []⟩, ⟨_, rfl, ?_⟩, rfl, rfl⟩
      rw [TranscriptState.fresh, endpoint]
      exact ends .fresh
  | chatCompletions =>
      rcases @exists_sse codec lawful _ (@Streaming.textual_roleEvent streaming) with
        ⟨text, -, octets⟩
      refine ⟨_, ⟨_, rfl, .head ⟨.work, ?_⟩ (ends (PipeState.fresh.write (Sse.event text)))⟩,
        rfl, rfl⟩
      simp [transcript, TranscriptState.step, TranscriptState.work, TranscriptState.fresh,
        endpoint, octets]

/-- Every event that was serialised has well-formed strings. -/
theorem textual_expected {tokens texts : List Bytes} (lawful : codec.Lawful)
    (valid : ∀ token ∈ tokens, Utf8.valid token = true)
    (dumps : Dumps codec (expected codec typeError streaming outcome tokens) texts) :
    ∀ json ∈ expected codec typeError streaming outcome tokens, json.Textual := by
  intro json member
  have dumped := dumps.isSome json member
  rw [expected, List.mem_append, List.mem_append] at member
  rcases member with (opening | isToken) | isError
  · exact textual_opening json opening
  · rcases List.mem_map.mp isToken with ⟨token, handedOver, rfl⟩
    exact Streaming.textual_tokenEvent (valid token handedOver)
  · rcases List.mem_map.mp isError with ⟨message, -, rfl⟩
    exact textual_errorEvent ((dump_errorEvent_isSome lawful message).mp dumped)

/-- A client decodes the tokens from the front of the events. -/
theorem tokensOf_front {tokens texts front : List Bytes} (lawful : codec.Lawful)
    (dumps : Dumps codec (expected codec typeError streaming outcome tokens) texts)
    (isFront : front <+: texts ++ [doneMark]) :
    tokensOf codec (front.flatMap Sse.event) =
      front.filterMap fun data => (codec.parse data).bind tokenOf := by
  have free : ∀ data ∈ front, Sse.newline ∉ data := by
    intro data member
    rcases List.mem_append.mp (isFront.subset member) with isText | isMark
    · exact dumps.newline_not_mem lawful data isText
    · rw [List.mem_singleton.mp isMark]
      decide
  rw [tokensOf, Sse.decode_flatMap_event free]

/-- All events together carry the tokens; the final mark is no JSON. -/
theorem filterMap_tokens {tokens texts : List Bytes} (lawful : codec.Lawful)
    (notJson : codec.parse doneMark = none)
    (valid : ∀ token ∈ tokens, Utf8.valid token = true)
    (dumps : Dumps codec (expected codec typeError streaming outcome tokens) texts) :
    ((texts ++ [doneMark]).filterMap fun data => (codec.parse data).bind tokenOf) = tokens := by
  rw [List.filterMap_append, dumps.tokens lawful (textual_expected lawful valid dumps),
    filterMap_tokenOf_expected]
  simp [notJson]

theorem shaped_of_reachable {state : TranscriptState} (lawful : codec.Lawful)
    (notJson : codec.parse doneMark = none)
    (typeErrorValid : ∀ json, Utf8.valid (typeError json) = true)
    (sound : ∀ what, outcome = .error what → Utf8.valid what = true)
    (reachable : (transcript codec typeError streaming outcome).Reachable state) :
    Shaped codec typeError streaming outcome state := by
  have invariant := @writing_invariant codec typeError streaming outcome lawful typeErrorValid sound
  have writing := invariant.of_reachable reachable
  constructor
  · rcases reaches_finished lawful typeErrorValid sound writing.standing with
      ⟨last, reaches, finished⟩
    have done := (invariant.of_reaches writing reaches).closed.mpr finished
    rcases @reaches_eof codec typeError streaming outcome _ finished done with
      ⟨next, drains, ended⟩
    exact ⟨next, reaches.trans drains, ended⟩
  · intro ended
    rcases writing.fifo.ended ended with ⟨done, empty⟩
    have finished := writing.closed.mp done
    have order := writing.fifo.order
    have written := writing.written
    rw [empty, List.append_nil] at order
    rw [TranscriptState.events, finished] at written
    rcases written with ⟨texts, dumps, took, tookAll⟩
    have events : texts.map Sse.event ++ (if Place.finished.marked then [Sse.event doneMark]
        else []) = (texts ++ [doneMark]).map Sse.event := by
      simp [Place.marked]
    rw [events] at took tookAll
    refine ⟨texts, dumps, fun sound => ?_, fun aborted => ?_⟩
    · have all : state.pipe.reads.flatten = (texts ++ [doneMark]).flatMap Sse.event := by
        rw [order, tookAll sound, List.flatMap]
      refine ⟨all, ?_⟩
      rw [all, tokensOf_front lawful dumps List.prefix_rfl,
        filterMap_tokens lawful notJson writing.tokens dumps]
    · rcases List.prefix_map_iff.mp took with ⟨front, isFront, payloads⟩
      have some : state.pipe.reads.flatten = front.flatMap Sse.event := by
        rw [order, payloads, List.flatMap]
      refine ⟨front, isFront, some, ?_⟩
      have tokens := isFront.filterMap fun data => (codec.parse data).bind tokenOf
      rw [filterMap_tokens lawful notJson writing.tokens dumps] at tokens
      rwa [some, tokensOf_front lawful dumps isFront]

theorem sound_of_shaped {what : Bytes} (lawful : codec.Lawful)
    (shaped : ∀ state, (transcript codec typeError streaming (.error what)).Reachable state →
      Shaped codec typeError streaming (.error what) state) : Utf8.valid what = true := by
  by_contra malformed
  rcases @reaches_terminated codec typeError streaming what lawful malformed with
    ⟨state, reachable, terminated, unread⟩
  rcases (shaped state reachable).ends with ⟨next, reaches, ended⟩
  rw [reaches_of_terminated terminated reaches, unread] at ended
  cases ended

/-- The transcript of a streaming request has its shape in every run, for every sequence of
tokens and every pace of the client, exactly when the message of the exception that ends
the call of the manager, if one does, can be serialised. -/
theorem shaped_iff (codec : Codec) (lawful : codec.Lawful)
    (notJson : codec.parse doneMark = none) (typeError : Json → Bytes)
    (typeErrorValid : ∀ json, Utf8.valid (typeError json) = true) (streaming : Streaming)
    (outcome : Outcome) :
    (∀ state, (transcript codec typeError streaming outcome).Reachable state →
      Shaped codec typeError streaming outcome state) ↔
      ∀ what, outcome = .error what → Utf8.valid what = true := by
  constructor
  · rintro shaped what rfl
    exact sound_of_shaped lawful shaped
  · intro sound state reachable
    exact shaped_of_reachable lawful notJson typeErrorValid sound reachable

/-- A chat whose call of the manager fails. -/
theorem shaped_iff_failedToStart :
    (∀ state, (transcript JsonText.reference (fun _ => bytes "invalid UTF-8 byte")
        ⟨.chatCompletions, 1, 2, bytes "m", by decide⟩
        (.ok (.error ⟨.modelError, bytes "Failed to start runner for m"⟩))).Reachable state →
      Shaped JsonText.reference (fun _ => bytes "invalid UTF-8 byte")
        ⟨.chatCompletions, 1, 2, bytes "m", by decide⟩
        (.ok (.error ⟨.modelError, bytes "Failed to start runner for m"⟩)) state) ↔
      ∀ what, (.ok (.error ⟨.modelError, bytes "Failed to start runner for m"⟩) : Outcome) =
        .error what → Utf8.valid what = true :=
  shaped_iff JsonText.reference JsonText.reference_lawful (by decide +kernel)
    (fun _ => bytes "invalid UTF-8 byte") (fun _ => by decide) _ _

/-- A models folder that is not UTF-8 is quoted in the message of a failed probe of a file,
and the handler that reports it throws. -/
theorem not_shaped_of_malformed_exception :
    ¬∀ state, (transcript JsonText.reference (fun _ => bytes "invalid UTF-8 byte")
        ⟨.completions, 1, 2, bytes "m", by decide⟩
        (.error (bytes "cannot get file status [/mod" ++ [0xE8] ++ bytes "les/m.gguf]"))).Reachable
          state →
      Shaped JsonText.reference (fun _ => bytes "invalid UTF-8 byte")
        ⟨.completions, 1, 2, bytes "m", by decide⟩
        (.error (bytes "cannot get file status [/mod" ++ [0xE8] ++ bytes "les/m.gguf]")) state := by
  intro shaped
  have valid := sound_of_shaped JsonText.reference_lawful shaped
  exact absurd valid (by decide)

end Cllama.Api
