import Cllama.Api.IOPipe
import Cllama.Core.Error
import Cllama.Library.Json
import Cllama.Library.Sse

/-!
# The transcript of a streaming request

A streaming endpoint starts a worker that calls the runner manager and writes an event to
a pipe for every token, then the error if there was one, and then the final mark.  The
HTTP server reads the pipe at its own pace.  The worker, whatever the manager hands over
and however it ends, and the reader are one machine here.
-/

namespace Cllama.Api

open Cllama.Library Cllama.Core

/-! ## Events -/

inductive Endpoint where
  | completions
  | chatCompletions
  deriving DecidableEq

/-- What is fixed for all events of one request.  The name of the model is a string of the
request's body, which has been parsed. -/
structure Streaming where
  endpoint : Endpoint
  idEpoch : Nat
  created : Nat
  model : Bytes
  modelValid : Utf8.valid model = true

namespace Streaming

variable (streaming : Streaming)

def streamId : Bytes :=
  match streaming.endpoint with
  | .completions => bytes "cmpl-" ++ bytes (toString streaming.idEpoch)
  | .chatCompletions => bytes "chatcmpl-" ++ bytes (toString streaming.idEpoch)

def object : Bytes :=
  match streaming.endpoint with
  | .completions => bytes "text_completion"
  | .chatCompletions => bytes "chat.completion.chunk"

/-- An event with one choice. -/
def event (choice : Json) : Json :=
  .obj [(bytes "choices", .arr [choice]), (bytes "created", .int streaming.created),
    (bytes "id", .str streaming.streamId), (bytes "model", .str streaming.model),
    (bytes "object", .str streaming.object)]

def deltaChoice (key : String) (text : Bytes) : Json :=
  .obj [(bytes "delta", .obj [(bytes key, .str text)]), (bytes "finish_reason", .null),
    (bytes "index", .int 0)]

def textChoice (text : Bytes) : Json :=
  .obj [(bytes "finish_reason", .null), (bytes "index", .int 0), (bytes "logprobs", .null),
    (bytes "text", .str text)]

def roleEvent : Json :=
  streaming.event (deltaChoice "role" (bytes "assistant"))

def tokenEvent (token : Bytes) : Json :=
  match streaming.endpoint with
  | .completions => streaming.event (textChoice token)
  | .chatCompletions => streaming.event (deltaChoice "content" token)

end Streaming

def errorEvent (message : Bytes) : Json :=
  .obj [(bytes "error", .str message)]

/-- The data of the last event. -/
def doneMark : Bytes := bytes "[DONE]"

/-! ## The worker and the reader -/

/-- How the call of the manager ends: with an exception, or with its result. -/
abbrev Outcome := Except Bytes (CLlamaResult Bytes)

/-- Where the worker stands: before the role event; in the call of the manager; before the
event of an error; in the handler of an exception; before the final mark; before it closes
the pipe; at its end; or gone with an exception that no handler catches, which ends the
whole process. -/
inductive Place where
  | starting
  | streaming
  | reporting (message : Bytes)
  | catching (what : Bytes)
  | ending
  | closing
  | finished
  | terminated
  deriving DecidableEq

/-- The pipe, the worker, and the tokens handed over so far. -/
structure TranscriptState where
  pipe : PipeState
  place : Place
  tokens : List Bytes

inductive TranscriptAction where
  | work
  | token (token : Bytes)
  | returned
  | read (count : Nat)

section Machine

variable (codec : Codec) (typeError : Json → Bytes) (streaming : Streaming) (outcome : Outcome)

/-- The octets of an event, unless its serialisation throws. -/
def sse (json : Json) : Option Bytes :=
  (codec.dump json).map Sse.event

namespace TranscriptState

/-- The state in which the worker starts; only a chat has a role event. -/
def fresh : TranscriptState where
  pipe := .fresh
  place :=
    match streaming.endpoint with
    | .completions => .streaming
    | .chatCompletions => .starting
  tokens := []

/-- A step of the worker outside of the manager.  Results of writes are ignored here. -/
def work (state : TranscriptState) : Option TranscriptState :=
  match state.place with
  | .starting =>
      match sse codec streaming.roleEvent with
      | some text => some { state with pipe := state.pipe.write text, place := .streaming }
      | none => some { state with place := .catching (typeError streaming.roleEvent) }
  | .reporting message =>
      match sse codec (errorEvent message) with
      | some text => some { state with pipe := state.pipe.write text, place := .ending }
      | none => some { state with place := .catching (typeError (errorEvent message)) }
  | .catching what =>
      match sse codec (errorEvent what) with
      | some text => some { state with pipe := state.pipe.write text, place := .ending }
      | none => some { state with place := .terminated }
  | .ending =>
      some { state with pipe := state.pipe.write (Sse.event doneMark), place := .closing }
  | .closing => some { state with pipe := state.pipe.close, place := .finished }
  | _ => none

/-- The manager hands a token to the callback.  It is a string out of a parsed record, so
that its event can be serialised.  Whether the manager stops after a refused write makes no
difference to what is written. -/
def token (token : Bytes) (state : TranscriptState) : Option TranscriptState :=
  if state.place = .streaming ∧ Utf8.valid token then
    (sse codec (streaming.tokenEvent token)).map fun text =>
      { state with pipe := state.pipe.write text, tokens := state.tokens ++ [token] }
  else none

/-- The call of the manager ends. -/
def returned (state : TranscriptState) : Option TranscriptState :=
  if state.place = .streaming then
    match outcome with
    | .ok (.ok _) => some { state with place := .ending }
    | .ok (.error error) => some { state with place := .reporting error.message }
    | .error what => some { state with place := .catching what }
  else none

/-- The response body is read, as long as there is a process. -/
def read (count : Nat) (state : TranscriptState) : Option TranscriptState :=
  if state.place = .terminated then none
  else (state.pipe.read count).map fun pipe => { state with pipe := pipe }

def step (state : TranscriptState) : TranscriptAction → Option TranscriptState
  | .work => work codec typeError streaming state
  | .token piece => token codec streaming piece state
  | .returned => returned outcome state
  | .read count => read count state

end TranscriptState

/-- The machine of one streaming request whose call of the manager ends in a given way. -/
def transcript : Machine TranscriptState TranscriptAction where
  Initial := (· = .fresh streaming)
  step := TranscriptState.step codec typeError streaming outcome

end Machine

end Cllama.Api
