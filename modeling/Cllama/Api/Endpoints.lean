import Cllama.Api.Handlers
import Cllama.Core.ListModels

/-!
# The endpoints of the two routers

Requests are told apart by their methods and paths.  The two routers build their responses with
different JSON libraries: the controller writes an object down, the cpprest router assigns its
members one after another.
-/

namespace Cllama.Api

open Cllama.Library Cllama.Core RunnerMgr Cllama.Platform

/-! ## Routes -/

inductive Method where
  | get
  | post
  deriving DecidableEq

/-- What requests are made for, apart from the documentation of the interface. -/
inductive ApiEndpoint where
  | root
  | health
  | listModels
  | listRunners
  | post (route : Route)
  | stopAll
  | pull
  | delete
  deriving DecidableEq

/-- The `ENDPOINT` declarations of the controller. -/
def Oatpp.endpoints : List ((Method × Bytes) × ApiEndpoint) :=
  [((.get, bytes "/"), .root), ((.get, bytes "/v1"), .root), ((.get, bytes "/v1/"), .root),
    ((.get, bytes "/health"), .health), ((.get, bytes "/v1/models"), .listModels),
    ((.get, bytes "/v1/runners"), .listRunners),
    ((.post, bytes "/v1/completions"), .post .completions),
    ((.post, bytes "/v1/chat/completions"), .post .chatCompletions),
    ((.post, bytes "/v1/embeddings"), .post .embeddings), ((.post, bytes "/v1/run"), .post .run),
    ((.post, bytes "/v1/stop"), .post .stop), ((.post, bytes "/v1/stop-all"), .stopAll),
    ((.post, bytes "/v1/pull"), .pull), ((.post, bytes "/v1/delete"), .delete)]

/-- The endpoint of a path; one that oatpp takes for a declared path is given as that path. -/
def Oatpp.endpoint (method : Method) (path : Bytes) : Option ApiEndpoint :=
  Oatpp.endpoints.lookup (method, path)

namespace CppRest

def handleGet (path : Bytes) : Option ApiEndpoint :=
  if path = bytes "/" ∨ path = bytes "/v1" ∨ path = bytes "/v1/" then some .root
  else if path = bytes "/v1/models" then some .listModels
  else if path = bytes "/v1/runners" then some .listRunners
  else if path = bytes "/health" then some .health
  else none

def handlePost (path : Bytes) : Option ApiEndpoint :=
  if path = bytes "/v1/completions" then some (.post .completions)
  else if path = bytes "/v1/chat/completions" then some (.post .chatCompletions)
  else if path = bytes "/v1/embeddings" then some (.post .embeddings)
  else if path = bytes "/v1/run" then some (.post .run)
  else if path = bytes "/v1/stop" then some (.post .stop)
  else if path = bytes "/v1/stop-all" then some .stopAll
  else if path = bytes "/v1/pull" then some .pull
  else if path = bytes "/v1/delete" then some .delete
  else none

def endpoint : Method → Bytes → Option ApiEndpoint
  | .get => handleGet
  | .post => handlePost

end CppRest

/-! ## Responses of the controller -/

/-- Times as `put_time` writes them. -/
structure Clock where
  timestamp : Nat → Bytes
  valid : ∀ time, Utf8.valid (timestamp time) = true

def runnerTypeName : RunnerType → Bytes
  | .cllama => bytes "cllama"

namespace Oatpp

def rootResponse : Json :=
  .obj [(bytes "service", .str (bytes "CLLaMA API Server")),
    (bytes "version", .str (bytes "1.0.0"))]

def healthResponse : Json :=
  .obj [(bytes "status", .str (bytes "healthy")), (bytes "version", .str (bytes "1.0.0"))]

def listResponse (items : List Json) : Json :=
  .obj [(bytes "data", .arr items), (bytes "object", .str (bytes "list"))]

def modelItem (created : Nat) (m : ModelInfo) : Json :=
  .obj [(bytes "created", .int created), (bytes "id", .str m.name),
    (bytes "object", .str (bytes "model")), (bytes "owned_by", .str (bytes "cllama"))]

def runnerItem (clock : Clock) (r : RunnerInfo) : Json :=
  .obj [(bytes "model_path", .str r.modelPath), (bytes "name", .str r.name),
    (bytes "pid", .int r.pid), (bytes "port", .int r.port),
    (bytes "runner_type", .str (runnerTypeName r.runnerType)),
    (bytes "started_at", .str (clock.timestamp r.startedAt))]

def stopAllResponse : Json :=
  .obj [(bytes "status", .str (bytes "stopped_all"))]

def errorResponse (error : String) : Json :=
  .obj [(bytes "error", .str (bytes error)), (bytes "status", .str (bytes "error"))]

def pullResponse : Json := errorResponse "pull not supported — use Ollama backend"

def deleteResponse : Json := errorResponse "delete not supported via API — use CLI"

end Oatpp

/-! ## Responses of the cpprest router -/

namespace CppRest

/-- `operator[]` on the left of an assignment; the members are kept in the order of their
keys. -/
def assign (key : Bytes) (value : Json) : List (Bytes × Json) → List (Bytes × Json)
  | [] => [(key, value)]
  | (other, old) :: members =>
      if key = other then (key, value) :: members
      else if key < other then (key, value) :: (other, old) :: members
      else (other, old) :: assign key value members

/-- A value whose members are assigned in turn. -/
def object (members : List (String × Json)) : Json :=
  .obj (members.foldl (fun assigned member => assign (bytes member.1) member.2 assigned) [])

def rootResponse : Json :=
  object [("service", .str (bytes "CLLaMA API Server")), ("version", .str (bytes "1.0.0"))]

def healthResponse : Json :=
  object [("status", .str (bytes "healthy")), ("version", .str (bytes "1.0.0"))]

def listResponse (items : List Json) : Json :=
  object [("object", .str (bytes "list")), ("data", .arr items)]

def modelItem (created : Nat) (m : ModelInfo) : Json :=
  object [("id", .str m.name), ("object", .str (bytes "model")), ("created", .int created),
    ("owned_by", .str (bytes "cllama"))]

def runnerItem (clock : Clock) (r : RunnerInfo) : Json :=
  object [("name", .str r.name), ("runner_type", .str (runnerTypeName r.runnerType)),
    ("port", .int r.port), ("pid", .int r.pid), ("model_path", .str r.modelPath),
    ("started_at", .str (clock.timestamp r.startedAt))]

def serverError (error : Error) : Json :=
  object [("message", .str error.message), ("type", .str (bytes "server_error"))]

def makeChoiceText (text : Bytes) : Json :=
  object [("text", .str text), ("index", .int 0), ("logprobs", .null),
    ("finish_reason", .str (bytes "stop"))]

def makeChoiceMessage (content : Bytes) : Json :=
  object [("index", .int 0),
    ("message", object [("role", .str (bytes "assistant")), ("content", .str content)]),
    ("logprobs", .null), ("finish_reason", .str (bytes "stop"))]

/-- The response to a request for text, with its one choice. -/
def textResponse (objectName id model : Bytes) (created : Nat) (choice : Bytes → Json)
    (result : CLlamaResult Bytes) : Json :=
  let fields := [("id", .str id), ("object", .str objectName), ("created", .int created),
    ("model", .str model)]
  match result with
  | .ok text =>
      object (fields ++ [("choices", .arr [choice text]),
        ("usage", object [("prompt_tokens", .int 0), ("completion_tokens", .int 0),
          ("total_tokens", .int 0)])])
  | .error error => object (fields ++ [("error", serverError error)])

def completionResponse (stamps : Stamps) (model : Bytes) : CLlamaResult Bytes → Json :=
  textResponse (bytes "text_completion") (bytes "cmpl-" ++ bytes (toString stamps.id)) model
    stamps.created makeChoiceText

def chatResponse (stamps : Stamps) (model : Bytes) : CLlamaResult Bytes → Json :=
  textResponse (bytes "chat.completion") (bytes "chatcmpl-" ++ bytes (toString stamps.id)) model
    stamps.created makeChoiceMessage

def embeddingsResponse (stamps : Stamps) (model : Bytes) (result : CLlamaResult Embedding) :
    Json :=
  let fields := [("id", .str (bytes "embd-" ++ bytes (toString stamps.id))),
    ("object", .str (bytes "list")), ("model", .str model)]
  match result with
  | .ok emb =>
      object (fields ++ [
        ("data", .arr [object [("object", .str (bytes "embedding")), ("index", .int 0),
          ("embedding", .arr (emb.data.map .real))]]),
        ("usage", object [("prompt_tokens", .int 0), ("total_tokens", .int 0)])])
  | .error error => object (fields ++ [("error", serverError error)])

def runResponse (runnerName runnerType : Bytes) : CLlamaResult Bool → Json
  | .ok _ =>
      object [("status", .str (bytes "started")), ("name", .str runnerName),
        ("runner_type", .str (if runnerType = [] then bytes "cllama" else runnerType))]
  | .error error =>
      object [("status", .str (bytes "error")), ("error", .str error.message)]

def stopResponse (runnerName : Bytes) : Json :=
  object [("status", .str (bytes "stopped")), ("name", .str runnerName)]

def stopAllResponse : Json :=
  object [("status", .str (bytes "stopped_all"))]

def errorResponse (error : String) : Json :=
  object [("status", .str (bytes "error")), ("error", .str (bytes error))]

def pullResponse : Json := errorResponse "pull not supported — use Ollama backend"

def deleteResponse : Json := errorResponse "delete not supported via API — use CLI"

end CppRest

end Cllama.Api
