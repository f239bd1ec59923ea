import Cllama.Core.Replies
import Cllama.Platform.Process
import Std.Data.TreeMap

/-!
# The runner manager

`RunnerManager` keeps a registry of runner processes by name, starts a runner when a
request needs one, and proxies requests to it over HTTP.  Every public operation holds
the manager's mutex from beginning to end, so that operations follow one another; the
children move on at any time.  An operation takes the whole `System` and returns it; a
result that is `none` is a C++ exception.
-/

namespace Cllama.Core.RunnerMgr

open Cllama.Library Http Cllama.Platform

/-! ## Data -/

/-- `CompletionOptions`, as far as it is sent to a runner. -/
structure CompletionOptions where
  maxTokens : Int := 100
  temperature : ℚ := 4 / 5
  topP : ℚ := 19 / 20
  topK : Int := 40

structure Message where
  role : Bytes
  content : Bytes

structure Embedding where
  data : List ℚ
  dimension : Nat

inductive RunnerType where
  | cllama
  deriving DecidableEq

/-- Time is counted in system calls. -/
structure RunnerInfo where
  name : Bytes
  runnerBinary : Bytes
  modelName : Bytes
  runnerType : RunnerType
  port : Int
  pid : Int
  modelPath : Bytes
  startedAt : Nat
  deriving DecidableEq

/-- A registry entry; the client is the port it connects to. -/
structure Runner where
  info : RunnerInfo
  client : Int
  deriving DecidableEq

structure RunnerManager where
  runnerBinary : Bytes
  modelsPath : Bytes
  runners : Std.TreeMap Bytes Runner
  modelRunnerMap : Std.TreeMap Bytes Bytes
  typeRunnerMap : Std.TreeMap Bytes Bytes

/-- An inference request that was sent: for which name, to the process registered under
that name at that time, and who answered. -/
structure Answer where
  name : Bytes
  registered : Option Int
  answerer : Answerer
  deriving DecidableEq

/-- The manager and its surroundings, with the history of the requests proxied so far. -/
structure System where
  world : World
  manager : RunnerManager
  answers : List Answer

/-- The constructor of the manager. -/
def System.create (runnerBinary modelsPath : Bytes) : System where
  world := .fresh
  manager := ⟨runnerBinary, modelsPath, ∅, ∅, ∅⟩
  answers := []

/-! ## Names and paths -/

def hasSuffix (s suf : Bytes) : Bool :=
  decide (s.length ≥ suf.length) && decide (s.drop (s.length - suf.length) = suf)

def resolvePath (manager : RunnerManager) (name : Bytes) : Bytes :=
  if hasSuffix name (bytes ".gguf") ∧ name.head? = some 0x2F then name
  else
    let p := manager.modelsPath
    let p := if p ≠ [] ∧ p.getLast? ≠ some 0x2F then p ++ [0x2F] else p
    let p := p ++ name
    if hasSuffix p (bytes ".gguf") then p else p ++ bytes ".gguf"

/-- `std::filesystem::path::stem`: the file name without its extension.  A dot that starts
the file name starts no extension. -/
def stem (path : Bytes) : Bytes :=
  let filename := (path.reverse.takeWhile (· ≠ 0x2F)).reverse
  let base := (filename.reverse.dropWhile (· ≠ 0x2E)).tail.reverse
  if base = [] ∨ filename = bytes ".." then filename else base

def runnerForModel (manager : RunnerManager) (modelName : Bytes) : Bytes :=
  manager.modelRunnerMap.getD modelName manager.runnerBinary

def binaryForType (manager : RunnerManager) (typeName : Bytes) : Bytes :=
  manager.typeRunnerMap.getD typeName []

def registerRunnerBinary (modelName runnerBinary : Bytes) (system : System) : System :=
  { system with manager := { system.manager with
      modelRunnerMap := system.manager.modelRunnerMap.insert modelName runnerBinary } }

def registerRunnerType (typeName runnerBinary : Bytes) (system : System) : System :=
  { system with manager := { system.manager with
      typeRunnerMap := system.manager.typeRunnerMap.insert typeName runnerBinary } }

/-! ## Starting a runner -/

variable (os : Os)

/-- The health polls of `spawn_runner`. -/
def pollHealth : Nat → Int → World → Bool × World
  | 0, _, world => (false, world)
  | n + 1, client, world =>
      let ((_, res), world) := world.request os client (bytes "/health") []
      if res.status = some 200 then (true, world) else pollHealth n client world

def spawnRunner (name binary modelPath : Bytes) (port : Int) (system : System) :
    Option Runner × System :=
  let args := [bytes "--model", modelPath, bytes "--port", bytes (toString port)]
  let (pid, world) := system.world.spawnProcess os binary args port
  if pid < 0 then (none, { system with world := world })
  else
    let runner : Runner :=
      { info :=
          { name := name
            runnerBinary := binary
            modelName := stem modelPath
            runnerType := .cllama
            port := port
            pid := pid
            modelPath := modelPath
            startedAt := world.clock }
        client := port }
    let (ok, world) := pollHealth os 100 runner.client world
    if ok then
      (some runner, { system with
        world := world
        manager := { system.manager with
          runners := system.manager.runners.insert name runner } })
    else
      let world := world.killProcess os pid .term
      let world := world.waitProcess os pid
      (none, { system with world := world })

def find (name : Bytes) (system : System) : Option Runner :=
  system.manager.runners[name]?

def getOrStart (modelName : Bytes) (system : System) : Option (Option Runner) × System :=
  match find modelName system with
  | some r => (some (some r), system)
  | none =>
      let path := resolvePath system.manager modelName
      let (found, world) := system.world.exists? os path
      match found with
      | none => (none, { system with world := world })
      | some false => (some none, { system with world := world })
      | some true =>
          let (port, world) := world.findFreePort os
          if port ≤ 0 then (some none, { system with world := world })
          else
            let (r, system) := spawnRunner os modelName
              (runnerForModel system.manager modelName) path port { system with world := world }
            (some r, system)

/-- The error of an operation whose runner cannot be started. -/
def failedToStart {α : Type} (modelName : Bytes) : CLlamaResult α :=
  .error ⟨.modelError, bytes "Failed to start runner for " ++ modelName⟩

def start (modelName : Bytes) (system : System) : Option (CLlamaResult Bool) × System :=
  match getOrStart os modelName system with
  | (none, system) => (none, system)
  | (some none, system) => (some (failedToStart modelName), system)
  | (some (some _), system) => (some (.ok true), system)

/-- The binary that `start_runner` resolves. -/
def effectiveBinary (manager : RunnerManager) (runnerBinary runnerType modelPath : Bytes) :
    Bytes :=
  let binary :=
    if runnerBinary = [] then runnerForModel manager (stem modelPath) else runnerBinary
  if binary = [] ∧ runnerType ≠ [] then binaryForType manager runnerType else binary

def startRunner (runnerName runnerBinary runnerType modelPath : Bytes) (system : System) :
    Option (CLlamaResult Bool) × System :=
  if (find runnerName system).isSome then
    (some (.error ⟨.alreadyExists, bytes "Runner already running: " ++ runnerName⟩), system)
  else
    let (found, world) := system.world.exists? os modelPath
    let system := { system with world := world }
    match found with
    | none => (none, system)
    | some false =>
        (some (.error ⟨.notFound, bytes "Model file not found: " ++ modelPath⟩), system)
    | some true =>
        let binary := effectiveBinary system.manager runnerBinary runnerType modelPath
        let (port, world) := system.world.findFreePort os
        let system := { system with world := world }
        if port ≤ 0 then
          (some (.error ⟨.modelError, bytes "Failed to find free port"⟩), system)
        else
          match spawnRunner os runnerName binary modelPath port system with
          | (none, system) =>
              (some (.error ⟨.modelError, bytes "Failed to start runner: " ++ runnerName⟩), system)
          | (some _, system) => (some (.ok true), system)

/-! ## Stopping runners -/

/-- The loop of `stop_with_timeout`: whether the process was found gone and waited for. -/
def awaitExit : Nat → Int → World → Bool × World
  | 0, _, world => (false, world)
  | n + 1, pid, world =>
      let (alive, world) := world.processIsAlive os pid
      if alive then awaitExit n pid world else (true, world.waitProcess os pid)

def stopWithTimeout (pid : Int) (world : World) : World :=
  let world := world.killProcess os pid .term
  let (gone, world) := awaitExit os 50 pid world
  if gone then world
  else
    let world := world.killProcess os pid .kill
    world.waitProcess os pid

def stop (runnerName : Bytes) (system : System) : System :=
  match find runnerName system with
  | none => system
  | some r =>
      { system with
        world := stopWithTimeout os r.info.pid system.world
        manager := { system.manager with
          runners := system.manager.runners.erase runnerName } }

/-- The registered runners, in the order of their names. -/
def registered (system : System) : List Runner :=
  system.manager.runners.toList.map Prod.snd

def stopAll (system : System) : System :=
  let runners := registered system
  let world := runners.foldl (fun world r => world.killProcess os r.info.pid .term) system.world
  let world := runners.foldl (fun world r => stopWithTimeout os r.info.pid world) world
  { system with world := world, manager := { system.manager with runners := ∅ } }

/-! ## Proxied requests -/

variable (codec : Codec)

def optsToJson (o : CompletionOptions) : Json :=
  .obj [(bytes "max_tokens", .int o.maxTokens), (bytes "temperature", .real o.temperature),
    (bytes "top_k", .int o.topK), (bytes "top_p", .real o.topP)]

def messagesToJson (messages : List Message) : Json :=
  .arr (messages.map fun m =>
    .obj [(bytes "content", .str m.content), (bytes "role", .str m.role)])

def completionBody (prompt : Bytes) (opts : CompletionOptions) : Json :=
  .obj [(bytes "options", optsToJson opts), (bytes "prompt", .str prompt)]

def chatBody (messages : List Message) (opts : CompletionOptions) : Json :=
  .obj [(bytes "messages", messagesToJson messages), (bytes "options", optsToJson opts)]

def embeddingsBody (input : Bytes) : Json :=
  .obj [(bytes "input", .str input)]

/-- Read a number as `float`; a Boolean is one, too. -/
def getFloat : Json → Option ℚ
  | .int value => some value
  | .real value => some value
  | .bool value => some (if value then 1 else 0)
  | _ => none

def getFloats : Json → Option (List ℚ)
  | .arr items => items.mapM getFloat
  | _ => none

/-- The end of `generate_embeddings`. -/
def embeddingsReply (exchange : Exchange) : CLlamaResult Embedding :=
  match exchange.reply with
  | none => .error ⟨.networkError, httpFailure "Runner embeddings failed: HTTP " 0⟩
  | some (status, body) =>
      if status ≠ 200 then
        .error ⟨.networkError, httpFailure "Runner embeddings failed: HTTP " status⟩
      else
        match ((codec.parse body).bind (Json.find "embedding")).bind getFloats with
        | none => .error ⟨.modelError, bytes "Invalid runner response"⟩
        | some data => .ok ⟨data, data.length⟩

/-- `PROXY_GUARD` and what follows it: find or start the runner, write the body, which may
throw, send it and interpret the response. -/
def proxy {α : Type} (modelName path : Bytes) (body : Json)
    (reply : Exchange → CLlamaResult α) (system : System) : Option (CLlamaResult α) × System :=
  match getOrStart os modelName system with
  | (none, system) => (none, system)
  | (some none, system) => (some (failedToStart modelName), system)
  | (some (some r), system) =>
      match codec.dump body with
      | none => (none, system)
      | some text =>
          let ((answerer, exchange), world) := system.world.request os r.client path text
          let answer : Answer :=
            ⟨modelName, (find modelName system).map (·.info.pid), answerer⟩
          (some (reply exchange), { system with
            world := world
            answers := system.answers ++ [answer] })

def generateCompletion (modelName prompt : Bytes) (opts : CompletionOptions)
    (system : System) : Option (CLlamaResult Bytes) × System :=
  proxy os codec modelName (bytes "/api/completion") (completionBody prompt opts)
    (generateCompletionReply codec) system

def chatCompletion (modelName : Bytes) (messages : List Message) (opts : CompletionOptions)
    (system : System) : Option (CLlamaResult Bytes) × System :=
  proxy os codec modelName (bytes "/api/chat") (chatBody messages opts)
    (chatCompletionReply codec) system

def streamCompletion (modelName prompt : Bytes) (opts : CompletionOptions)
    (onToken : Option TokenCallback) (system : System) : Option (CLlamaResult Bytes) × System :=
  proxy os codec modelName (bytes "/api/completion") (completionBody prompt opts)
    (streamCompletionReply codec onToken) system

def streamChat (modelName : Bytes) (messages : List Message) (opts : CompletionOptions)
    (onToken : Option TokenCallback) (system : System) : Option (CLlamaResult Bytes) × System :=
  proxy os codec modelName (bytes "/api/chat") (chatBody messages opts)
    (streamChatReply codec onToken) system

def generateEmbeddings (modelName input : Bytes) (system : System) :
    Option (CLlamaResult Embedding) × System :=
  proxy os codec modelName (bytes "/api/embeddings") (embeddingsBody input)
    (embeddingsReply codec) system

/-! ## Inspection -/

def listRunners (system : System) : CLlamaResult (List RunnerInfo) :=
  .ok ((registered system).map Runner.info)

def health (modelName : Bytes) (system : System) : CLlamaResult Bool × System :=
  match find modelName system with
  | none => (.ok false, system)
  | some r =>
      let ((_, res), world) := system.world.request os r.client (bytes "/health") []
      (.ok (decide (res.status = some 200)), { system with world := world })

/-! ## Runs -/

/-- A public operation. -/
inductive Call where
  | registerRunnerBinary (modelName runnerBinary : Bytes)
  | registerRunnerType (typeName runnerBinary : Bytes)
  | start (modelName : Bytes)
  | startRunner (runnerName runnerBinary runnerType modelPath : Bytes)
  | stop (runnerName : Bytes)
  | stopAll
  | generateCompletion (modelName prompt : Bytes) (opts : CompletionOptions)
  | chatCompletion (modelName : Bytes) (messages : List Message) (opts : CompletionOptions)
  | streamCompletion (modelName prompt : Bytes) (opts : CompletionOptions)
      (onToken : Option TokenCallback)
  | streamChat (modelName : Bytes) (messages : List Message) (opts : CompletionOptions)
      (onToken : Option TokenCallback)
  | generateEmbeddings (modelName input : Bytes)
  | health (modelName : Bytes)
  | listRunners

/-- What happens next: time passes, or an operation is called. -/
inductive Action where
  | elapse
  | call (call : Call)

/-- The system after an operation. -/
def perform (system : System) : Call → System
  | .registerRunnerBinary modelName binary => registerRunnerBinary modelName binary system
  | .registerRunnerType typeName binary => registerRunnerType typeName binary system
  | .start modelName => (start os modelName system).2
  | .startRunner name binary type path => (startRunner os name binary type path system).2
  | .stop name => stop os name system
  | .stopAll => stopAll os system
  | .generateCompletion modelName prompt opts =>
      (generateCompletion os codec modelName prompt opts system).2
  | .chatCompletion modelName messages opts =>
      (chatCompletion os codec modelName messages opts system).2
  | .streamCompletion modelName prompt opts onToken =>
      (streamCompletion os codec modelName prompt opts onToken system).2
  | .streamChat modelName messages opts onToken =>
      (streamChat os codec modelName messages opts onToken system).2
  | .generateEmbeddings modelName input =>
      (generateEmbeddings os codec modelName input system).2
  | .health modelName => (health os modelName system).2
  | .listRunners => system

def act (system : System) : Action → System
  | .elapse => { system with world := system.world.tick os }
  | .call call => perform os codec system call

/-- The system after a run of a newly created manager. -/
def run (runnerBinary modelsPath : Bytes) (actions : List Action) : System :=
  actions.foldl (act os codec) (.create runnerBinary modelsPath)

end Cllama.Core.RunnerMgr
