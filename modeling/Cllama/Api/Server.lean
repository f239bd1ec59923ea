import Cllama.Api.Endpoints
import Cllama.Core.Consistency
import Cllama.Library.JsonText
import Cllama.Library.Simulation

/-!
# The server

A router answers requests one after another as far as the runner manager is concerned, which is
locked during a call.  A request for a stream is answered at once; the call for it is made by a
worker, at any time later.
-/

namespace Cllama.Api

open Cllama.Library Cllama.Core RunnerMgr Cllama.Platform

/-! ## Requests -/

/-- The two values of `--impl`. -/
inductive RouterImpl where
  | oatpp
  | cpprest
  deriving DecidableEq

/-- The choice in `cmd_serve`. -/
def RouterImpl.ofName (impl : Bytes) : RouterImpl :=
  if impl = bytes "cpprest" then .cpprest else .oatpp

/-- The JSON library of the manager and the controller, that of the cpprest router, and what
both take from the standard library. -/
structure Libraries where
  codec : Codec
  web : Codec
  conversions : Conversions
  clock : Clock

/-- The reference library on both sides, at the beginning of the epoch. -/
def Libraries.reference : Libraries where
  codec := JsonText.reference
  web := JsonText.reference
  conversions := .exact
  clock := ⟨fun _ => bytes "1970-01-01T00:00:00Z", fun _ => by decide⟩

section Routers

variable (os : Os) (libraries : Libraries) (stamps : Stamps) (directory : Option Directory)

namespace Oatpp

/-- The handler of an endpoint. -/
def serve (endpoint : ApiEndpoint) (body : Bytes) (system : System) : Handled :=
  let reply (json : Json) (system : System) : Handled :=
    ⟨jsonResponse libraries.codec 200 json, none, system⟩
  match endpoint with
  | .root => reply rootResponse system
  | .health => reply healthResponse system
  | .listModels =>
      reply (listResponse ((listModels system.manager directory).map (modelItem stamps.created)))
        system
  | .listRunners =>
      reply (listResponse ((registered system).map fun r => runnerItem libraries.clock r.info))
        system
  | .post route => handle os libraries.codec libraries.conversions stamps route body system
  | .stopAll => reply stopAllResponse (stopAll os system)
  | .pull => reply pullResponse system
  | .delete => reply deleteResponse system

end Oatpp

namespace CppRest

/-- Make a call and build the response to it. -/
def perform (command : Command) (system : System) : Handled :=
  match command with
  | .generateCompletion model prompt opts =>
      respond libraries.web command
        (RunnerMgr.generateCompletion os libraries.codec model prompt opts system)
        (completionResponse stamps model)
  | .chatCompletion model messages opts =>
      respond libraries.web command
        (RunnerMgr.chatCompletion os libraries.codec model messages opts system)
        (chatResponse stamps model)
  | .generateEmbeddings model input =>
      respond libraries.web command
        (RunnerMgr.generateEmbeddings os libraries.codec model input system)
        (embeddingsResponse stamps model)
  | .startRunner runnerName runnerBin runnerType modelPath =>
      respond libraries.web command
        (RunnerMgr.startRunner os runnerName runnerBin runnerType modelPath system)
        (runResponse runnerName runnerType)
  | .stop runnerName =>
      ⟨jsonResponse libraries.web 200 (stopResponse runnerName), some command,
        RunnerMgr.stop os runnerName system⟩
  | .streamCompletion _ _ _ | .streamChat _ _ _ => ⟨some .eventStream, some command, system⟩

/-- The handler of a request with a body; `extract_json` throws. -/
def handle (route : Route) (body : Bytes) (system : System) : Handled :=
  match (libraries.web.parse body).bind
      (command libraries.conversions system.manager route) with
  | none => ⟨none, none, system⟩
  | some command => perform os libraries stamps command system

/-- The handler of an endpoint. -/
def serve (endpoint : ApiEndpoint) (body : Bytes) (system : System) : Handled :=
  let reply (json : Json) (system : System) : Handled :=
    ⟨jsonResponse libraries.web 200 json, none, system⟩
  match endpoint with
  | .root => reply rootResponse system
  | .health => reply healthResponse system
  | .listModels =>
      reply (listResponse ((listModels system.manager directory).map (modelItem stamps.created)))
        system
  | .listRunners =>
      reply (listResponse ((registered system).map fun r => runnerItem libraries.clock r.info))
        system
  | .post route => handle os libraries stamps route body system
  | .stopAll => reply stopAllResponse (stopAll os system)
  | .pull => reply pullResponse system
  | .delete => reply deleteResponse system

end CppRest

namespace RouterImpl

def endpoint : RouterImpl → Method → Bytes → Option ApiEndpoint
  | .oatpp => Oatpp.endpoint
  | .cpprest => CppRest.endpoint

def serve : RouterImpl → ApiEndpoint → Bytes → System → Handled
  | .oatpp => Oatpp.serve os libraries stamps directory
  | .cpprest => CppRest.serve os libraries stamps directory

end RouterImpl

end Routers

/-! ## The machine -/

/-- The manager, and the calls whose workers have not begun them yet. -/
structure Server where
  system : System
  workers : List Command

/-- What a client sends, and what the handler reads besides: the clock and the directory of the
models. -/
structure HttpRequest where
  method : Method
  path : Bytes
  body : Bytes
  stamps : Stamps
  directory : Option Directory

/-- Time passes, a request arrives, or a worker makes its call with its callback. -/
inductive ServerAction where
  | elapse
  | request (request : HttpRequest)
  | work (worker : Nat) (onToken : Option TokenCallback)

/-- The call of the manager for a command; a stream needs a callback. -/
def Command.call (onToken : Option TokenCallback) : Command → Call
  | .generateCompletion model prompt opts => .generateCompletion model prompt opts
  | .streamCompletion model prompt opts => .streamCompletion model prompt opts onToken
  | .chatCompletion model messages opts => .chatCompletion model messages opts
  | .streamChat model messages opts => .streamChat model messages opts onToken
  | .generateEmbeddings model input => .generateEmbeddings model input
  | .startRunner name binary type path => .startRunner name binary type path
  | .stop name => .stop name

section Machine

variable (router : RouterImpl) (os : Os) (libraries : Libraries)

/-- The server after a request has been answered. -/
def Server.after (server : Server) (handled : Handled) : Server where
  system := handled.system
  workers :=
    match handled.response, handled.command with
    | some .eventStream, some command => server.workers ++ [command]
    | _, _ => server.workers

/-- A request for an unknown path is answered by the framework. -/
def Server.receive (server : Server) (request : HttpRequest) : Server :=
  match router.endpoint request.method request.path with
  | none => server
  | some endpoint =>
      server.after
        (router.serve os libraries request.stamps request.directory endpoint request.body
          server.system)

/-- The response that a client receives in one piece.  An exception becomes a page of the
framework. -/
def received (pages : Int → Bytes) (handled : Handled) : Option (Int × Bytes) :=
  match handled.response with
  | some (.json status text) => some (status, text)
  | some .eventStream => none
  | none => some (500, pages 500)

/-- The response to a request. -/
def Server.answer (pages : Int → Bytes) (server : Server) (request : HttpRequest) :
    Option (Int × Bytes) :=
  match router.endpoint request.method request.path with
  | none => some (404, pages 404)
  | some endpoint =>
      received pages
        (router.serve os libraries request.stamps request.directory endpoint request.body
          server.system)

def Server.step (server : Server) : ServerAction → Option Server
  | .elapse => some { server with system := act os libraries.codec server.system .elapse }
  | .request request => some (server.receive router os libraries request)
  | .work worker onToken =>
      server.workers[worker]?.map fun command =>
        { system := act os libraries.codec server.system (.call (command.call onToken))
          workers := server.workers.eraseIdx worker }

/-- The server that `cmd_serve` starts. -/
def serverMachine (runnerBinary modelsPath : Bytes) : Library.Machine Server ServerAction where
  Initial server := server = ⟨.create runnerBinary modelsPath, []⟩
  step server := server.step router os libraries

/-- The manager with its calls. -/
def managerMachine (os : Os) (codec : Codec) (runnerBinary modelsPath : Bytes) :
    Library.Machine System Action where
  Initial system := system = .create runnerBinary modelsPath
  step system action := some (act os codec system action)

end Machine

/-! ## Requests and their calls -/

/-- The call that the body of a request asks for, unless the handler rejects it. -/
def RouterImpl.command (router : RouterImpl) (libraries : Libraries) (manager : RunnerManager)
    (route : Route) (body : Bytes) : Option Command :=
  match router with
  | .oatpp =>
      (libraries.codec.parse (Runner.cString body)).bind
        (Oatpp.command libraries.conversions manager route)
  | .cpprest =>
      (libraries.web.parse body).bind (CppRest.command libraries.conversions manager route)

/-- Calls that are left to a worker. -/
def Command.streaming : Command → Bool
  | .streamCompletion _ _ _ | .streamChat _ _ _ => true
  | _ => false

variable {router : RouterImpl} {os : Os} {libraries : Libraries} {stamps : Stamps}
  {directory : Option Directory}

/-- A request with a body that is not rejected. -/
structure Obeyed (os : Os) (codec : Codec) (command : Command) (system : System)
    (handled : Handled) : Prop where
  called : handled.command = some command
  streams : command.streaming = true →
    handled.response = some .eventStream ∧ handled.system = system
  answers : command.streaming = false →
    handled.response ≠ some .eventStream ∧
      handled.system = RunnerMgr.perform os codec system (command.call none)

theorem jsonResponse_ne_eventStream (codec : Codec) (status : Nat) (json : Json) :
    jsonResponse codec status json ≠ some .eventStream := by
  intro same
  rcases Option.map_eq_some_iff.mp same with ⟨text, -, isJson⟩
  cases isJson

theorem responds_ne_eventStream (codec : Codec) {α : Type} (command : Command)
    (call : Option (CLlamaResult α) × System) (build : CLlamaResult α → Json) :
    (respond codec command call build).response ≠ some .eventStream := by
  intro same
  rcases Option.bind_eq_some_iff.mp same with ⟨result, -, isResponse⟩
  exact jsonResponse_ne_eventStream codec 200 (build result) isResponse

theorem Oatpp.obeyed (codec : Codec) (command : Command) (system : System) :
    Obeyed os codec command system (perform os codec stamps command system) := by
  cases command with
  | streamCompletion | streamChat =>
      exact ⟨rfl, fun _ => ⟨rfl, rfl⟩, fun streaming => Bool.noConfusion streaming⟩
  | stop =>
      exact ⟨rfl, fun streaming => Bool.noConfusion streaming,
        fun _ => ⟨jsonResponse_ne_eventStream _ _ _, rfl⟩⟩
  | _ =>
      exact ⟨rfl, fun streaming => Bool.noConfusion streaming,
        fun _ => ⟨responds_ne_eventStream _ _ _ _, rfl⟩⟩

theorem CppRest.obeyed (command : Command) (system : System) :
    Obeyed os libraries.codec command system
      (perform os libraries stamps command system) := by
  cases command with
  | streamCompletion | streamChat =>
      exact ⟨rfl, fun _ => ⟨rfl, rfl⟩, fun streaming => Bool.noConfusion streaming⟩
  | stop =>
      exact ⟨rfl, fun streaming => Bool.noConfusion streaming,
        fun _ => ⟨jsonResponse_ne_eventStream _ _ _, rfl⟩⟩
  | _ =>
      exact ⟨rfl, fun streaming => Bool.noConfusion streaming,
        fun _ => ⟨responds_ne_eventStream _ _ _ _, rfl⟩⟩

/-- A request with a body is rejected without a trace, or makes the call its body asks for. -/
theorem serve_post_cases (route : Route) (body : Bytes) (system : System) :
    let handled := router.serve os libraries stamps directory (.post route) body system
    router.command libraries system.manager route body = none ∧
        handled.command = none ∧ handled.system = system ∨
      ∃ command, router.command libraries system.manager route body = some command ∧
        Obeyed os libraries.codec command system handled := by
  cases router with
  | oatpp =>
      simp only [RouterImpl.serve, RouterImpl.command, Oatpp.serve]
      rw [Api.handle]
      cases libraries.codec.parse (Runner.cString body) with
      | none => exact Or.inl ⟨rfl, rfl, rfl⟩
      | some json =>
          dsimp only [Option.bind_some]
          cases Oatpp.command libraries.conversions system.manager route json with
          | none => exact Or.inl ⟨rfl, rfl, rfl⟩
          | some command => exact Or.inr ⟨command, rfl, Oatpp.obeyed libraries.codec command system⟩
  | cpprest =>
      simp only [RouterImpl.serve, RouterImpl.command, CppRest.serve]
      rw [CppRest.handle]
      cases (libraries.web.parse body).bind
          (CppRest.command libraries.conversions system.manager route) with
      | none => exact Or.inl ⟨rfl, rfl, rfl⟩
      | some command => exact Or.inr ⟨command, rfl, CppRest.obeyed command system⟩

/-- A request without a body stops all runners or changes nothing. -/
theorem serve_cases {endpoint : ApiEndpoint} (noBody : ∀ route, endpoint ≠ .post route)
    (body : Bytes) (system : System) :
    let handled := router.serve os libraries stamps directory endpoint body system
    handled.command = none ∧
      handled.system = if endpoint = .stopAll then stopAll os system else system := by
  cases endpoint with
  | post route => exact absurd rfl (noBody route)
  | _ => cases router <;> exact ⟨rfl, rfl⟩

end Cllama.Api
