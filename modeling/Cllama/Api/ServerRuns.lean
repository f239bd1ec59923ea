import Cllama.Api.Server
import Cllama.Core.Launches

/-!
# Runs of the server

Whatever requests arrive and whenever the workers of the streams make their calls, the server
does nothing to the manager but call it.  So what holds of the manager after every run holds of
every state of the server, and more does, since a request cannot name a path: `/v1/run` resolves
the model that it names, and no handler registers a binary for a model or for a type.
-/

namespace Cllama.Api

open Cllama.Library Cllama.Core RunnerMgr Cllama.Platform

variable {router : RouterImpl} {os : Os} {libraries : Libraries}

/-! ## Steps -/

/-- A command that some request asks for. -/
def Asked (router : RouterImpl) (libraries : Libraries) (manager : RunnerManager)
    (command : Command) : Prop :=
  ∃ route body, router.command libraries manager route body = some command

/-- What the server may do to the manager. -/
inductive Server.Acts (router : RouterImpl) (libraries : Libraries) (server : Server) :
    Action → Prop where
  | elapse : Acts router libraries server .elapse
  | stopAll : Acts router libraries server (.call .stopAll)
  | asked {command : Command} (isAsked : Asked router libraries server.system.manager command) :
      Acts router libraries server (.call (command.call none))
  | worker {command : Command} (waits : command ∈ server.workers)
      (onToken : Option TokenCallback) : Acts router libraries server (.call (command.call onToken))

/-- All that a step can do. -/
inductive Server.Change (router : RouterImpl) (os : Os) (libraries : Libraries)
    (server next : Server) : Prop where
  | stays (same : next = server)
  | queued (command : Command) (isAsked : Asked router libraries server.system.manager command)
      (workers : next.workers = server.workers ++ [command])
      (system : next.system = server.system)
  | acted (action : Action) (acts : server.Acts router libraries action)
      (workers : next.workers ⊆ server.workers)
      (system : next.system = act os libraries.codec server.system action)

theorem Server.after_of_no_command {server : Server} {handled : Handled}
    (none : handled.command = none) : server.after handled = ⟨handled.system, server.workers⟩ := by
  rw [Server.after, none]
  cases handled.response <;> simp

theorem Server.receive_change (server : Server) (request : HttpRequest) :
    server.Change router os libraries (server.receive router os libraries request) := by
  rw [Server.receive]
  cases router.endpoint request.method request.path with
  | none => exact .stays rfl
  | some endpoint =>
      dsimp only
      by_cases noBody : ∀ route, endpoint ≠ .post route
      · rcases @serve_cases router os libraries request.stamps request.directory endpoint noBody
          request.body server.system with ⟨noCommand, system⟩
        rw [Server.after_of_no_command noCommand, system]
        split
        · exact .acted (.call .stopAll) .stopAll (List.Subset.refl _) rfl
        · exact .stays rfl
      · rcases not_forall_not.mp noBody with ⟨route, rfl⟩
        rcases @serve_post_cases router os libraries request.stamps request.directory route
          request.body server.system with ⟨-, noCommand, system⟩ | ⟨command, isCommand, obeyed⟩
        · rw [Server.after_of_no_command noCommand, system]
          exact .stays rfl
        · have isAsked : Asked router libraries server.system.manager command :=
            ⟨route, request.body, isCommand⟩
          cases streams : command.streaming with
          | true =>
              rcases obeyed.streams streams with ⟨response, system⟩
              apply Server.Change.queued command isAsked
              · simp only [Server.after, response, obeyed.called]
              · exact system
          | false =>
              rcases obeyed.answers streams with ⟨response, system⟩
              apply Server.Change.acted _ (.asked isAsked) _ system
              rw [Server.after]
              dsimp only
              split
              next isStream _ => exact absurd isStream response
              next => exact List.Subset.refl _

theorem Server.step_change {server next : Server} {action : ServerAction}
    (taken : server.step router os libraries action = some next) :
    server.Change router os libraries next := by
  cases action with
  | elapse =>
      cases taken
      exact .acted .elapse .elapse (List.Subset.refl _) rfl
  | request request =>
      cases taken
      exact server.receive_change request
  | work worker onToken =>
      rcases Option.map_eq_some_iff.mp taken with ⟨command, found, rfl⟩
      have waits : command ∈ server.workers := List.mem_of_getElem? found
      exact .acted _ (.worker waits onToken) List.eraseIdx_subset rfl

/-! ## The server and the manager -/

/-- Whatever a router is sent, and in whatever order the workers of its streams are scheduled,
what happens to the manager is one of its own runs. -/
theorem serverMachine_simulated (router : RouterImpl) (os : Os) (libraries : Libraries)
    (runnerBinary modelsPath : Bytes) :
    Machine.Simulation (serverMachine router os libraries runnerBinary modelsPath)
      (managerMachine os libraries.codec runnerBinary modelsPath)
      fun server system => server.system = system where
  initial := by
    rintro server rfl
    exact ⟨_, rfl, rfl⟩
  step := by
    rintro server action next system rfl taken
    cases Server.step_change taken with
    | stays same => exact ⟨_, .refl, congrArg Server.system same⟩
    | queued command isAsked workers system => exact ⟨_, .refl, system⟩
    | acted action acts workers system => exact ⟨_, .single ⟨action, rfl⟩, system⟩

/-! ## Provenance -/

section Provenance

variable (fits : Bytes → Prop) (manager : RunnerManager)

/-- The name and the model of a launch come from a request. -/
structure NamedLaunch (launch : Launch) : Prop where
  name : fits launch.name
  path : ∃ asked, fits asked ∧ launch.modelPath = resolvePath manager asked

/-- What a call launches is named by a request. -/
def NamedCall (call : Call) : Prop :=
  ∀ launch, call.launch manager = some launch → NamedLaunch fits manager launch

/-- A registered runner that was launched so. -/
structure Provenance (os : Os) (r : Runner) : Prop where
  name : fits r.info.name
  path : ∃ asked, fits asked ∧ r.info.modelPath = resolvePath manager asked
  modelName : r.info.modelName = stem r.info.modelPath
  client : r.client = r.info.port
  port : 0 < r.info.port ∧ ∃ call, r.info.port = os.freePort call
  pid : 0 < r.info.pid ∧ ∃ call, r.info.pid = os.fork call

variable {fits manager}

theorem provenance_of_launched {launch : Launch} {r : Runner}
    (launched : Launched os launch r) (named : NamedLaunch fits manager launch) :
    Provenance fits manager os r where
  name := by
    rw [launched.name]
    exact named.name
  path := by
    rw [launched.modelPath]
    exact named.path
  modelName := by
    rw [launched.modelName, launched.modelPath]
  client := launched.client
  port := launched.port
  pid := launched.pid

theorem launch_settings (call : Call) (manager : RunnerManager) :
    call.launch manager.settings = call.launch manager := by
  cases call <;> rfl

theorem Command.launch_call (command : Command) (onToken : Option TokenCallback)
    (manager : RunnerManager) :
    (command.call onToken).launch manager = (command.call none).launch manager := by
  cases command <;> rfl

theorem Command.call_keepsSettings (command : Command) (onToken : Option TokenCallback) :
    (command.call onToken).KeepsSettings := by
  cases command <;> trivial

theorem Asked.settings {command : Command} (isAsked : Asked router libraries manager command) :
    Asked router libraries manager.settings command := by
  rcases isAsked with ⟨route, body, isCommand⟩
  refine ⟨route, body, ?_⟩
  rw [← isCommand]
  cases router <;> cases route <;> rfl

end Provenance

/-! ## Every state of the server -/

/-- What holds in every state: the manager knows its own children, it has the settings it was
created with, and what is registered, or waits to be called for, was named by a request. -/
structure Server.Grounded (fits : Bytes → Prop) (os : Os) (start : RunnerManager)
    (server : Server) : Prop where
  consistent : Consistent server.system
  settings : server.system.manager.settings = start.settings
  workers : ∀ command ∈ server.workers, NamedCall fits start (command.call none)
  entries : ∀ name r, Entry server.system.manager.runners name r → Provenance fits start os r

section Grounded

variable {fits : Bytes → Prop} {start : RunnerManager}

theorem Server.Grounded.named {server : Server} (grounded : server.Grounded fits os start)
    (named : ∀ command, Asked router libraries start.settings command →
      NamedCall fits start (command.call none))
    {action : Action} (acts : server.Acts router libraries action) :
    action = .elapse ∨ ∃ call, action = .call call ∧ call.KeepsSettings ∧
      NamedCall fits start call := by
  cases acts with
  | elapse => exact Or.inl rfl
  | stopAll => exact Or.inr ⟨_, rfl, trivial, fun launch none => by cases none⟩
  | asked isAsked =>
      have atStart := isAsked.settings
      rw [grounded.settings] at atStart
      exact Or.inr ⟨_, rfl, Command.call_keepsSettings _ none, named _ atStart⟩
  | worker waits onToken =>
      refine Or.inr ⟨_, rfl, Command.call_keepsSettings _ onToken, ?_⟩
      intro launch isLaunch
      rw [Command.launch_call] at isLaunch
      exact grounded.workers _ waits launch isLaunch

theorem Server.Grounded.change {server next : Server} (grounded : server.Grounded fits os start)
    (named : ∀ command, Asked router libraries start.settings command →
      NamedCall fits start (command.call none))
    (change : server.Change router os libraries next) : next.Grounded fits os start := by
  rcases grounded with ⟨consistent, settings, workers, entries⟩
  cases change with
  | stays same =>
      subst same
      exact ⟨consistent, settings, workers, entries⟩
  | queued command isAsked queue system =>
      have atStart := isAsked.settings
      rw [settings] at atStart
      constructor
      · rwa [system]
      · rwa [system]
      · rw [queue]
        exact List.forall_mem_append.mpr
          ⟨workers, List.forall_mem_singleton.mpr (named command atStart)⟩
      · rwa [system]
  | acted action acts fewer system =>
      have remaining : ∀ command ∈ next.workers, NamedCall fits start (command.call none) :=
        fun command waits => workers command (fewer waits)
      rcases Server.Grounded.named ⟨consistent, settings, workers, entries⟩ named acts with
        rfl | ⟨call, rfl, keeps, isNamed⟩
      · rw [act] at system
        refine ⟨?_, ?_, remaining, ?_⟩
        · rw [system]
          exact @Consistent.act os libraries.codec _ consistent .elapse
        · rwa [system]
        · rwa [system]
      · refine ⟨?_, ?_, remaining, ?_⟩
        · rw [system]
          exact consistent.act (.call call)
        · rw [system, act, perform_settings keeps, settings]
        · rw [system]
          apply (perform_launching call server.system).entries entries
          intro launch r isLaunch launched
          rw [← launch_settings, settings, launch_settings] at isLaunch
          exact provenance_of_launched launched (isNamed launch isLaunch)

/-- The server is grounded from its beginning on. -/
theorem grounded_invariant {runnerBinary modelsPath : Bytes}
    (named : ∀ command, Asked router libraries (System.create runnerBinary modelsPath).manager
      command → NamedCall fits (System.create runnerBinary modelsPath).manager
        (command.call none)) :
    (serverMachine router os libraries runnerBinary modelsPath).Invariant
      (Server.Grounded fits os (System.create runnerBinary modelsPath).manager) where
  initial := by
    rintro server rfl
    constructor
    · exact consistent_create runnerBinary modelsPath
    · rfl
    · exact fun command waits => absurd waits List.not_mem_nil
    · intro name r entry
      simp [System.create, Entry] at entry
  step := by
    intro server action next grounded taken
    exact grounded.change named (Server.step_change taken)

end Grounded

/-! ## What requests name -/

section Requests

variable {fits : Bytes → Prop} {manager : RunnerManager} {json : Json} {route : Route}
  {command : Command}

/-- A call for a model launches the model that it names. -/
theorem namedCall_of_demanded {call : Call} {model : Bytes} (isNamed : fits model)
    (launches : call.launch manager =
      some ⟨model, runnerForModel manager model, resolvePath manager model⟩) :
    NamedCall fits manager call := by
  intro launch isLaunch
  rw [launches] at isLaunch
  cases isLaunch
  exact ⟨isNamed, model, isNamed, rfl⟩

theorem namedCall_startRunner {name binary type model : Bytes} (isNamed : fits name)
    (isModel : fits model) :
    NamedCall fits manager (.startRunner name binary type (resolvePath manager model)) := by
  intro launch isLaunch
  cases isLaunch
  exact ⟨isNamed, model, isModel, rfl⟩

theorem namedCall_stop (name : Bytes) : NamedCall fits manager (.stop name) := by
  intro launch isLaunch
  cases isLaunch

theorem Oatpp.namedCall
    (texts : ∀ key text, json.value Json.getString key [] = some text → fits text)
    (isCommand : Oatpp.command libraries.conversions manager route json = some command) :
    NamedCall fits manager (command.call none) := by
  cases route with
  | completions =>
      simp only [Oatpp.command, Oatpp.completions, Option.bind_eq_bind, Option.bind_eq_some_iff,
        Option.pure_def, Option.some.injEq] at isCommand
      rcases isCommand with ⟨model, read, prompt, -, stream, -, opts, -, rfl⟩
      cases stream <;> exact namedCall_of_demanded (texts _ model read) rfl
  | chatCompletions =>
      simp only [Oatpp.command, Oatpp.chatCompletions, Option.bind_eq_bind,
        Option.bind_eq_some_iff, Option.pure_def, Option.some.injEq] at isCommand
      rcases isCommand with ⟨model, read, stream, -, messages, -, opts, -, rfl⟩
      cases stream <;> exact namedCall_of_demanded (texts _ model read) rfl
  | embeddings =>
      simp only [Oatpp.command, Oatpp.embeddings, Option.bind_eq_bind, Option.bind_eq_some_iff,
        Option.pure_def, Option.some.injEq] at isCommand
      rcases isCommand with ⟨model, read, input, -, rfl⟩
      exact namedCall_of_demanded (texts _ model read) rfl
  | run =>
      simp only [Oatpp.command, Oatpp.run, Option.bind_eq_bind, Option.bind_eq_some_iff,
        Option.pure_def, Option.some.injEq] at isCommand
      rcases isCommand with ⟨name, readName, binary, -, model, readModel, type, -, rfl⟩
      exact namedCall_startRunner (texts _ name readName) (texts _ model readModel)
  | stop =>
      simp only [Oatpp.command, Oatpp.stop, Option.bind_eq_bind, Option.bind_eq_some_iff,
        Option.pure_def, Option.some.injEq] at isCommand
      rcases isCommand with ⟨name, -, rfl⟩
      exact namedCall_stop name

theorem CppRest.namedCall
    (texts : ∀ key text, CppRest.stringField key json = some text → fits text)
    (isCommand : CppRest.command libraries.conversions manager route json = some command) :
    NamedCall fits manager (command.call none) := by
  cases route with
  | completions =>
      simp only [CppRest.command, CppRest.completions, Option.bind_eq_bind,
        Option.bind_eq_some_iff, Option.pure_def, Option.some.injEq] at isCommand
      rcases isCommand with ⟨model, read, prompt, -, stream, -, opts, -, rfl⟩
      cases stream <;> exact namedCall_of_demanded (texts _ model read) rfl
  | chatCompletions =>
      simp only [CppRest.command, CppRest.chat, Option.bind_eq_bind, Option.bind_eq_some_iff,
        Option.pure_def, Option.some.injEq] at isCommand
      rcases isCommand with ⟨model, read, stream, -, messages, -, opts, -, rfl⟩
      cases stream <;> exact namedCall_of_demanded (texts _ model read) rfl
  | embeddings =>
      simp only [CppRest.command, CppRest.embeddings, Option.bind_eq_bind,
        Option.bind_eq_some_iff, Option.pure_def, Option.some.injEq] at isCommand
      rcases isCommand with ⟨model, read, input, -, rfl⟩
      exact namedCall_of_demanded (texts _ model read) rfl
  | run =>
      simp only [CppRest.command, CppRest.run, Option.bind_eq_bind, Option.bind_eq_some_iff,
        Option.pure_def, Option.some.injEq] at isCommand
      rcases isCommand with ⟨name, readName, binary, -, model, readModel, type, -, rfl⟩
      exact namedCall_startRunner (texts _ name readName) (texts _ model readModel)
  | stop =>
      simp only [CppRest.command, CppRest.stop, Option.bind_eq_bind, Option.bind_eq_some_iff,
        Option.pure_def, Option.some.injEq] at isCommand
      rcases isCommand with ⟨name, -, rfl⟩
      exact namedCall_stop name

theorem Asked.namedCall (isAsked : Asked router libraries manager command) :
    NamedCall (fun _ => True) manager (command.call none) := by
  rcases isAsked with ⟨route, body, isCommand⟩
  cases router with
  | oatpp =>
      rcases Option.bind_eq_some_iff.mp isCommand with ⟨json, -, read⟩
      exact Oatpp.namedCall (fun _ _ _ => trivial) read
  | cpprest =>
      rcases Option.bind_eq_some_iff.mp isCommand with ⟨json, -, read⟩
      exact CppRest.namedCall (fun _ _ _ => trivial) read

/-- The controller takes valid UTF-8 out of what its library has read. -/
theorem Asked.namedCall_valid
    (wellFormed : ∀ text json, libraries.codec.parse text = some json → json.WellFormed)
    (isAsked : Asked .oatpp libraries manager command) :
    NamedCall (fun text => Utf8.valid text = true) manager (command.call none) := by
  rcases isAsked with ⟨route, body, isCommand⟩
  rcases Option.bind_eq_some_iff.mp isCommand with ⟨json, parsed, read⟩
  exact Oatpp.namedCall
    (fun key text isText => Json.valid_of_value (wellFormed _ json parsed) rfl isText) read

end Requests

theorem grounded_of_reachable {runnerBinary modelsPath : Bytes} {server : Server}
    (reachable : (serverMachine router os libraries runnerBinary modelsPath).Reachable server) :
    server.Grounded (fun _ => True) os (System.create runnerBinary modelsPath).manager :=
  (grounded_invariant fun _ isAsked => isAsked.namedCall).of_reachable reachable

/-- In every state of the server, behind either router: the registered pids are those of the
children not yet waited for; the binary and the folder it was started with are still those of the
manager, and no binary is registered for a model or a type; and every entry carries its own name,
the path that the name of some model resolves to, the stem of that path, a free port to which its
client connects, and the pid of a fork. -/
theorem server_provenance (router : RouterImpl) (os : Os) (libraries : Libraries)
    (runnerBinary modelsPath : Bytes) (server : Server)
    (reachable : (serverMachine router os libraries runnerBinary modelsPath).Reachable server) :
    let manager := server.system.manager
    (∀ pid, (∃ name r, Entry manager.runners name r ∧ r.info.pid = pid) ↔
        ∃ child ∈ server.system.world.children, child.pid = pid) ∧
      (manager.runnerBinary = runnerBinary ∧ manager.modelsPath = modelsPath ∧
        manager.modelRunnerMap = ∅ ∧ manager.typeRunnerMap = ∅) ∧
      ∀ name r, Entry manager.runners name r →
        r.info.name = name ∧ (∃ asked, r.info.modelPath = resolvePath manager asked) ∧
          r.info.modelName = stem r.info.modelPath ∧ r.client = r.info.port ∧
          (0 < r.info.port ∧ ∃ call, r.info.port = os.freePort call) ∧
          0 < r.info.pid ∧ ∃ call, r.info.pid = os.fork call := by
  intro manager
  have grounded := grounded_of_reachable reachable
  have settings := grounded.settings
  refine ⟨?_, ?_, ?_⟩
  · intro pid
    rw [grounded.consistent.tracks.children pid]
    simp [World.processes]
  · exact ⟨congrArg RunnerManager.runnerBinary settings,
      congrArg RunnerManager.modelsPath settings,
      congrArg RunnerManager.modelRunnerMap settings,
      congrArg RunnerManager.typeRunnerMap settings⟩
  · intro name r entry
    rcases grounded.entries name r entry with ⟨-, ⟨asked, -, path⟩, modelName, client, port, pid⟩
    have named : r.info.name = name := grounded.consistent.tracks.named name r entry
    rw [← resolvePath_settings, ← settings, resolvePath_settings] at path
    exact ⟨named, ⟨asked, path⟩, modelName, client, port, pid⟩

/-- A system whose only child listens on port 4000 from the fourth system call on. -/
def oneChild : Os where
  events n := if n = 3 then [(0, .listening)] else []
  fork _ := 7
  freePort _ := 4000
  fileExists _ := some true
  response _ := ⟨[], some 200⟩
  boundElsewhere _ _ := false
  pidElsewhere _ _ := false

/-- A request for the runner of a model. -/
def runRequest : HttpRequest where
  method := .post
  path := bytes "/v1/run"
  body := bytes "\x7b\"name\":\"r\",\"model\":\"m\"\x7d"
  stamps := ⟨0, 0⟩
  directory := none

/-- A server with one runner. -/
def oneRunner : Server :=
  Server.receive .oatpp oneChild .reference ⟨.create [] (bytes "/models"), []⟩ runRequest

theorem server_provenance_oneRunner :
    (∃ name r, Entry oneRunner.system.manager.runners name r ∧ r.info.pid = 7) ↔
      ∃ child ∈ oneRunner.system.world.children, child.pid = 7 :=
  (server_provenance .oatpp oneChild .reference [] (bytes "/models") oneRunner
    ⟨_, rfl, .single ⟨.request runRequest, rfl⟩⟩).1 7

example : (registered oneRunner.system).map (·.info.pid) = [7] := by
  decide +kernel

end Cllama.Api
