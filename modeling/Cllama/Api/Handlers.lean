import Cllama.Api.Requests

/-!
# The POST handlers of the oatpp controller

A handler parses its body, takes the arguments of one call of the runner manager out of it,
makes the call, and writes what came of it as JSON.  It catches no exception: what the JSON
library or the manager throws escapes the handler.
-/

namespace Cllama.Api

open Cllama.Library Cllama.Core RunnerMgr Cllama.Platform

/-- The response of a handler.  The events of a stream are written by a worker. -/
inductive Response where
  | json (status : Nat) (text : Bytes)
  | eventStream
  deriving DecidableEq

/-- What a handler does: its response, unless an exception escapes; the call it has made, if
it came to that; and the system it leaves behind. -/
structure Handled where
  response : Option Response
  command : Option Command
  system : System

/-- The readings of the clock for one response. -/
structure Stamps where
  id : Nat
  created : Nat

/-! ## The bodies of the responses -/

def invalidJson : Json :=
  .obj [(bytes "error", .str (bytes "invalid JSON"))]

def serverError (error : Error) : Json :=
  .obj [(bytes "message", .str error.message), (bytes "type", .str (bytes "server_error"))]

def usage : Json :=
  .obj [(bytes "completion_tokens", .int 0), (bytes "prompt_tokens", .int 0),
    (bytes "total_tokens", .int 0)]

/-- The response to a request for text, with its one choice. -/
def textResponse (object id model : Bytes) (created : Nat) (choice : Bytes → Json)
    (result : CLlamaResult Bytes) : Json :=
  match result with
  | .ok text =>
      .obj [(bytes "choices", .arr [choice text]), (bytes "created", .int created),
        (bytes "id", .str id), (bytes "model", .str model), (bytes "object", .str object),
        (bytes "usage", usage)]
  | .error error =>
      .obj [(bytes "created", .int created), (bytes "error", serverError error),
        (bytes "id", .str id), (bytes "model", .str model), (bytes "object", .str object)]

def completionResponse (stamps : Stamps) (model : Bytes) : CLlamaResult Bytes → Json :=
  textResponse (bytes "text_completion") (bytes "cmpl-" ++ bytes (toString stamps.id)) model
    stamps.created fun text =>
      .obj [(bytes "finish_reason", .str (bytes "stop")), (bytes "index", .int 0),
        (bytes "logprobs", .null), (bytes "text", .str text)]

def chatResponse (stamps : Stamps) (model : Bytes) : CLlamaResult Bytes → Json :=
  textResponse (bytes "chat.completion") (bytes "chatcmpl-" ++ bytes (toString stamps.id)) model
    stamps.created fun content =>
      .obj [(bytes "finish_reason", .str (bytes "stop")), (bytes "index", .int 0),
        (bytes "logprobs", .null),
        (bytes "message",
          .obj [(bytes "content", .str content), (bytes "role", .str (bytes "assistant"))])]

def embeddingsResponse (stamps : Stamps) (model : Bytes) (result : CLlamaResult Embedding) :
    Json :=
  let id := bytes "embd-" ++ bytes (toString stamps.id)
  match result with
  | .ok emb =>
      .obj [(bytes "data", .arr [.obj [(bytes "embedding", .arr (emb.data.map .real)),
          (bytes "index", .int 0), (bytes "object", .str (bytes "embedding"))]]),
        (bytes "id", .str id), (bytes "model", .str model), (bytes "object", .str (bytes "list")),
        (bytes "usage", .obj [(bytes "prompt_tokens", .int 0), (bytes "total_tokens", .int 0)])]
  | .error error =>
      .obj [(bytes "error", serverError error), (bytes "id", .str id),
        (bytes "model", .str model), (bytes "object", .str (bytes "list"))]

def runResponse (runnerName runnerType : Bytes) : CLlamaResult Bool → Json
  | .ok _ =>
      .obj [(bytes "name", .str runnerName),
        (bytes "runner_type", .str (if runnerType = [] then bytes "cllama" else runnerType)),
        (bytes "status", .str (bytes "started"))]
  | .error error =>
      .obj [(bytes "error", .str error.message), (bytes "status", .str (bytes "error"))]

def stopResponse (runnerName : Bytes) : Json :=
  .obj [(bytes "name", .str runnerName), (bytes "status", .str (bytes "stopped"))]

/-! ## The handlers -/

section Handlers

variable (os : Os) (codec : Codec) (conversions : Conversions) (stamps : Stamps)

/-- `json_response`; `dump` may throw. -/
def jsonResponse (status : Nat) (json : Json) : Option Response :=
  (codec.dump json).map (.json status)

/-- The result of a call as a response. -/
def respond {α : Type} (command : Command) (call : Option (CLlamaResult α) × System)
    (build : CLlamaResult α → Json) : Handled :=
  ⟨call.1.bind fun result => jsonResponse codec 200 (build result), some command, call.2⟩

/-- Make a call.  A streaming one is made by the worker that writes the events. -/
def perform (command : Command) (system : System) : Handled :=
  match command with
  | .generateCompletion model prompt opts =>
      respond codec command (RunnerMgr.generateCompletion os codec model prompt opts system)
        (completionResponse stamps model)
  | .chatCompletion model messages opts =>
      respond codec command (RunnerMgr.chatCompletion os codec model messages opts system)
        (chatResponse stamps model)
  | .generateEmbeddings model input =>
      respond codec command (RunnerMgr.generateEmbeddings os codec model input system)
        (embeddingsResponse stamps model)
  | .startRunner runnerName runnerBin runnerType modelPath =>
      respond codec command
        (RunnerMgr.startRunner os runnerName runnerBin runnerType modelPath system)
        (runResponse runnerName runnerType)
  | .stop runnerName =>
      ⟨jsonResponse codec 200 (stopResponse runnerName), some command,
        RunnerMgr.stop os runnerName system⟩
  | .streamCompletion _ _ _ | .streamChat _ _ _ => ⟨some .eventStream, some command, system⟩

/-- The handler of an endpoint, which parses the body as a C string.  That of `/v1/stop`
does not look whether this failed, and reads a member of the discarded value. -/
def handle (route : Route) (body : Bytes) (system : System) : Handled :=
  match codec.parse (Runner.cString body) with
  | none => ⟨if route = .stop then none else jsonResponse codec 400 invalidJson, none, system⟩
  | some jbody =>
      match Oatpp.command conversions system.manager route jbody with
      | none => ⟨none, none, system⟩
      | some command => perform os codec stamps command system

end Handlers

end Cllama.Api
