import Cllama.Api.ServeAgreement
import Cllama.Api.ServerRuns
import Cllama.Cli.RunnerCommands
import Cllama.Library.JsonPortable

/-!
# The commands of the client and the server

A command of the client makes a request, a handler of the server answers it, and the command
prints what it reads in the answer.
-/

namespace Cllama.Boundary

open Cllama.Library Cllama.Core RunnerMgr Cllama.Platform Cllama.Api Cllama.Cli

variable {os : Os} {libraries : Libraries}

/-! ## The list of runners -/

/-- The line of a runner in the table. -/
def runnerLine (clock : Clock) (r : RunnerInfo) : Bytes :=
  column 8 (bytes (toString r.pid)) ++ column 8 (bytes (toString r.port)) ++
    column 12 (runnerTypeName r.runnerType) ++ column 20 r.name ++
    column 28 (lastComponent r.modelPath) ++ line (clock.timestamp r.startedAt)

/-- A runner that can be shown. -/
structure Showable (r : RunnerInfo) : Prop where
  name : Utf8.valid r.name = true
  modelPath : Utf8.valid r.modelPath = true
  pid : -2 ^ 31 ≤ r.pid ∧ r.pid < 2 ^ 31
  port : -2 ^ 31 ≤ r.port ∧ r.port < 2 ^ 31

theorem runnerItem_textual (clock : Clock) {r : RunnerInfo} (showable : Showable r) :
    (Oatpp.runnerItem clock r).Textual := by
  apply Json.Textual.ofKeys [bytes "model_path", bytes "name", bytes "pid", bytes "port",
    bytes "runner_type", bytes "started_at"] rfl (by decide) (by decide +kernel)
  simp only [List.map_cons, List.map_nil, List.Forall]
  refine ⟨.str showable.modelPath, .str showable.name, .int _, .int _, .str ?_,
    .str (clock.valid _)⟩
  cases r.runnerType
  decide

theorem listResponse_textual {items : List Json} (textual : ∀ item ∈ items, item.Textual) :
    (Oatpp.listResponse items).Textual := by
  apply Json.Textual.ofKeys [bytes "data", bytes "object"] rfl (by decide) (by decide +kernel)
  exact ⟨.arr textual, .str (by decide)⟩

/-- The columns of a line are those of the item. -/
theorem runnerColumns_runnerItem (conversions : Conversions) (clock : Clock) {r : RunnerInfo}
    (showable : Showable r) :
    runnerColumns conversions (Oatpp.runnerItem clock r) =
      [some (column 8 (bytes (toString r.pid))), some (column 8 (bytes (toString r.port))),
        some (column 12 (runnerTypeName r.runnerType)), some (column 20 r.name),
        some (column 28 (lastComponent r.modelPath)),
        some (line (clock.timestamp r.startedAt))] := by
  have modelPath : (Oatpp.runnerItem clock r).value Json.getString "model_path" [] =
      some r.modelPath := rfl
  have pid : (Oatpp.runnerItem clock r).value conversions.getInt "pid" 0 =
      some (Conversions.wrap r.pid) := rfl
  have port : (Oatpp.runnerItem clock r).value conversions.getInt "port" 0 =
      some (Conversions.wrap r.port) := rfl
  have runnerType : (Oatpp.runnerItem clock r).value Json.getString "runner_type" (bytes "?") =
      some (runnerTypeName r.runnerType) := rfl
  have name : (Oatpp.runnerItem clock r).value Json.getString "name" (bytes "?") =
      some r.name := rfl
  have startedAt : (Oatpp.runnerItem clock r).value Json.getString "started_at" (bytes "?") =
      some (clock.timestamp r.startedAt) := rfl
  rw [runnerColumns, modelPath, pid, port, runnerType, name, startedAt,
    Conversions.wrap_of_int showable.pid, Conversions.wrap_of_int showable.port]
  rfl

theorem printAll_runners (conversions : Conversions) (clock : Clock) {shown : List RunnerInfo}
    (showable : ∀ r ∈ shown, Showable r) :
    printAll ((shown.map (Oatpp.runnerItem clock)).flatMap (runnerColumns conversions)) =
      (shown.flatMap (runnerLine clock), true) := by
  induction shown with
  | nil => rfl
  | cons r shown ih =>
      rw [List.forall_mem_cons] at showable
      rw [List.map_cons, List.flatMap_cons, runnerColumns_runnerItem conversions clock showable.1]
      have rest := ih showable.2
      simp [printAll, rest, runnerLine]

/-- What is printed for a list of runners that the server has written. -/
theorem cmdRunnerList_eq (lawful : libraries.codec.Lawful) (conversions : Conversions)
    (clock : Clock) (serverUrl : Bytes) {shown : List RunnerInfo}
    (showable : ∀ r ∈ shown, Showable r) :
    ∃ text, libraries.codec.dump (Oatpp.listResponse (shown.map (Oatpp.runnerItem clock))) =
        some text ∧
      cmdRunnerList libraries.codec conversions serverUrl (some (200, text)) =
        ⟨some 0, if shown = [] then line (bytes "No active runners.")
          else runnerTable ++ shown.flatMap (runnerLine clock), []⟩ := by
  have textual : (Oatpp.listResponse (shown.map (Oatpp.runnerItem clock))).Textual :=
    listResponse_textual
      (List.forall_mem_map.mpr fun r isShown => runnerItem_textual clock (showable r isShown))
  rcases lawful.exists_dump textual with ⟨text, dumped, -, -, parsed⟩
  refine ⟨text, dumped, ?_⟩
  have printed := printAll_runners conversions clock showable
  have read : (Oatpp.listResponse (shown.map (Oatpp.runnerItem clock))).index "data" =
      some (.arr (shown.map (Oatpp.runnerItem clock))) := rfl
  rw [cmdRunnerList, parsed, Option.bind_some, read]
  dsimp only
  cases shown with
  | nil => rfl
  | cons r shown =>
      rw [Runner.elements, printAll, printed]
      simp [isEmpty, guarded]

/-- The pids of a system are numbers of type `int`, and so are its ports. -/
structure IntSized (os : Os) : Prop where
  fork : ∀ call, os.fork call < 2 ^ 31
  freePort : ∀ call, os.freePort call < 2 ^ 31

theorem valid_resolvePath {manager : RunnerManager} {asked : Bytes}
    (folder : Utf8.valid manager.modelsPath = true) (valid : Utf8.valid asked = true) :
    Utf8.valid (resolvePath manager asked) = true := by
  have slash : Utf8.valid [0x2F] = true := by decide
  have gguf : Utf8.valid (bytes ".gguf") = true := by decide
  have extended : ∀ path, Utf8.valid path = true →
      Utf8.valid (if hasSuffix path (bytes ".gguf") then path else path ++ bytes ".gguf") =
        true := by
    intro path valid
    split
    · exact valid
    · exact Utf8.valid_append valid gguf
  rw [resolvePath]
  split
  · exact valid
  · apply extended
    apply Utf8.valid_append _ valid
    split
    · exact Utf8.valid_append folder slash
    · exact folder

theorem showable_of_provenance {manager : RunnerManager} {r : Runner}
    (folder : Utf8.valid manager.modelsPath = true) (sized : IntSized os)
    (provenance : Provenance (fun text => Utf8.valid text = true) manager os r) :
    Showable r.info := by
  rcases provenance with ⟨name, ⟨asked, valid, path⟩, -, -, ⟨port, portCall, isPort⟩,
    pid, pidCall, isPid⟩
  refine ⟨name, ?_, ⟨?_, ?_⟩, ?_, ?_⟩
  · rw [path]
    exact valid_resolvePath folder valid
  · exact Int.le_trans (by decide) (Int.le_of_lt pid)
  · rw [isPid]
    exact sized.fork pidCall
  · exact Int.le_trans (by decide) (Int.le_of_lt port)
  · rw [isPort]
    exact sized.freePort portCall

/-- The registered pids are those of the children, each once. -/
theorem registered_perm {system : System} (consistent : Consistent system) :
    ((registered system).map (·.info.pid)).Perm (system.world.children.map (·.pid)) := by
  have children : (system.world.children.map (·.pid)).Nodup := by
    have pids := consistent.sound.pids
    rwa [World.pids, World.processes, List.map_map] at pids
  apply (List.perm_ext_iff_of_nodup (registered_nodup consistent) children).mpr
  intro pid
  have tracked := consistent.tracks.children pid
  rw [World.processes, List.map_map] at tracked
  refine Iff.trans ?_ tracked
  simp only [List.mem_map, mem_registered]
  constructor
  · rintro ⟨r, ⟨name, entry⟩, same⟩
    exact ⟨name, r, entry, same⟩
  · rintro ⟨name, r, entry, same⟩
    exact ⟨r, ⟨name, entry⟩, same⟩

/-- The registered runners are in the order of their names. -/
theorem registered_names {system : System} (consistent : Consistent system) :
    ((registered system).map (·.info.name)).Pairwise
      fun left right => compare left right = .lt := by
  rw [registered, List.map_map, List.pairwise_map]
  apply Std.TreeMap.ordered_keys_toList.imp_of_mem
  rintro ⟨left, l⟩ ⟨right, r⟩ leftMember rightMember ordered
  rw [Std.TreeMap.mem_toList_iff_getElem?_eq_some] at leftMember rightMember
  have leftName := consistent.tracks.named left l leftMember
  have rightName := consistent.tracks.named right r rightMember
  simpa [leftName, rightName] using ordered

/-- A request without a body for the list of the runners. -/
def listRequest (stamps : Stamps) (directory : Option Directory) : HttpRequest where
  method := .get
  path := bytes "/v1/runners"
  body := []
  stamps := stamps
  directory := directory

example :
    (cmdRunnerList JsonText.reference .exact []
      (oneRunner.answer .oatpp oneChild .reference (fun _ => [])
        (listRequest ⟨0, 0⟩ none))).output =
      runnerTable ++ bytes "7       4000    cllama      r                   " ++
        bytes "m.gguf                      1970-01-01T00:00:00Z\n" := by
  decide +kernel

/-! ## Starting a runner -/

/-- The library of the client, which is that of the controller, and the library of the cpprest
router read what the other one writes. -/
structure Interoperable (libraries : Libraries) : Prop where
  client : libraries.codec.Portable
  writes : ∀ json : Json, json.Textual → (libraries.web.dump json).isSome = true
  reads : ∀ (json : Json) (text : Bytes), json.Textual →
    libraries.codec.dump json = some text → libraries.web.parse text = some json
  readBack : ∀ (json : Json) (text : Bytes), json.Textual →
    libraries.web.dump json = some text → libraries.codec.parse text = some json

/-- A request with a body. -/
def postRequest (path text : Bytes) (stamps : Stamps) (directory : Option Directory) :
    HttpRequest where
  method := .post
  path := path
  body := text
  stamps := stamps
  directory := directory

theorem receive_post {router : RouterImpl} {path : Bytes} {endpoint : ApiEndpoint}
    (routed : router.endpoint .post path = some endpoint) (server : Server) (text : Bytes)
    (stamps : Stamps) (directory : Option Directory) :
    server.receive router os libraries (postRequest path text stamps directory) =
      server.after (router.serve os libraries stamps directory endpoint text server.system) := by
  simp only [Server.receive, postRequest, routed]

theorem answer_post {router : RouterImpl} {path : Bytes} {endpoint : ApiEndpoint}
    (routed : router.endpoint .post path = some endpoint) (pages : Int → Bytes) (server : Server)
    (text : Bytes) (stamps : Stamps) (directory : Option Directory) :
    server.answer router os libraries pages (postRequest path text stamps directory) =
      received pages
        (router.serve os libraries stamps directory endpoint text server.system) := by
  simp only [Server.answer, postRequest, routed]

/-- A response of one piece queues no worker, also if it cannot be written. -/
theorem after_jsonResponse (server : Server) (codec : Codec) (status : Nat) (json : Json)
    (command : Option Command) (system : System) :
    server.after ⟨jsonResponse codec status json, command, system⟩ = ⟨system, server.workers⟩ := by
  rw [Server.after, jsonResponse]
  cases codec.dump json <;> rfl

theorem received_jsonResponse {codec : Codec} {json : Json} {text : Bytes}
    (dumped : codec.dump json = some text) (pages : Int → Bytes) (command : Option Command)
    (system : System) :
    received pages ⟨jsonResponse codec 200 json, command, system⟩ = some (200, text) := by
  rw [jsonResponse, dumped]
  rfl

/-- All that a start is given can be written. -/
structure WritableStart (start : RunnerStart) : Prop where
  runnerName : Utf8.valid start.runnerName = true
  binary : Utf8.valid start.binary = true
  runnerType : Utf8.valid start.runnerType = true
  model : Utf8.valid start.model = true

theorem WritableStart.name {start : RunnerStart} (writable : WritableStart start) :
    Utf8.valid start.name = true := by
  rw [RunnerStart.name]
  split
  · exact writable.model
  · exact writable.runnerName

theorem WritableStart.textual {start : RunnerStart} (writable : WritableStart start) :
    start.body.Textual := by
  rw [RunnerStart.body]
  split
  · apply Json.Textual.ofKeys [bytes "binary", bytes "model", bytes "name"] rfl (by decide)
      (by decide +kernel)
    exact ⟨.str writable.binary, .str writable.model, .str writable.name⟩
  · apply Json.Textual.ofKeys [bytes "binary", bytes "model", bytes "name", bytes "type"] rfl
      (by decide) (by decide +kernel)
    exact ⟨.str writable.binary, .str writable.model, .str writable.name,
      .str writable.runnerType⟩

/-- The call that a start asks for, of either router. -/
def startCommand (start : RunnerStart) (manager : RunnerManager) : Command :=
  .startRunner start.name start.binary start.runnerType (resolvePath manager start.model)

theorem command_start (start : RunnerStart) (manager : RunnerManager) :
    Oatpp.command libraries.conversions manager .run start.body =
        some (startCommand start manager) ∧
      CppRest.command libraries.conversions manager .run start.body =
        some (startCommand start manager) := by
  rw [RunnerStart.body]
  split
  next noType =>
    -- the type that is not sent is the one that both routers assume
    rw [startCommand, noType]
    exact ⟨rfl, rfl⟩
  next => exact ⟨rfl, rfl⟩

/-- The library that a router writes its responses with. -/
def libraryOf (libraries : Libraries) : RouterImpl → Codec
  | .oatpp => libraries.codec
  | .cpprest => libraries.web

/-- The client reads what a router writes. -/
theorem Interoperable.exists_written (interoperable : Interoperable libraries)
    (router : RouterImpl) {json : Json} (textual : json.Textual) :
    ∃ text, (libraryOf libraries router).dump json = some text ∧
      libraries.codec.parse text = some json := by
  cases router with
  | oatpp =>
      rcases interoperable.client.exists_dump textual with ⟨text, dumped, -, -, parsed⟩
      exact ⟨text, dumped, parsed⟩
  | cpprest =>
      rcases Option.isSome_iff_exists.mp (interoperable.writes json textual) with ⟨text, dumped⟩
      exact ⟨text, dumped, interoperable.readBack json text textual dumped⟩

/-- A router reads what the client writes. -/
theorem Interoperable.command (interoperable : Interoperable libraries) (router : RouterImpl)
    {route : Route} {manager : RunnerManager} {json : Json} {text : Bytes} {command : Command}
    (textual : json.Textual) (dumped : libraries.codec.dump json = some text)
    (oatpp : Oatpp.command libraries.conversions manager route json = some command)
    (cppRest : CppRest.command libraries.conversions manager route json = some command) :
    router.command libraries manager route text = some command := by
  cases router with
  | oatpp =>
      have noNul : (0 : UInt8) ∉ text := interoperable.client.nul_not_mem json text dumped
      have parsed := interoperable.client.parse_dump json text textual dumped
      rw [RouterImpl.command, Runner.cString, takeWhile_ne_eq_self noNul, parsed]
      exact oatpp
  | cpprest =>
      have parsed := interoperable.reads json text textual dumped
      rw [RouterImpl.command, parsed]
      exact cppRest

/-- The handler of a start, once the body has been read. -/
theorem serve_run_eq {router : RouterImpl} {stamps : Stamps} {directory : Option Directory}
    {body : Bytes} {system : System} {name binary type path : Bytes}
    (asked : router.command libraries system.manager .run body =
      some (.startRunner name binary type path)) :
    router.serve os libraries stamps directory (.post .run) body system =
      ⟨(startRunner os name binary type path system).1.bind fun result =>
          jsonResponse (libraryOf libraries router) 200 (Api.runResponse name type result),
        some (.startRunner name binary type path),
        (startRunner os name binary type path system).2⟩ := by
  cases router with
  | oatpp =>
      rcases Option.bind_eq_some_iff.mp asked with ⟨json, parsed, read⟩
      simp only [RouterImpl.serve, Oatpp.serve, Api.handle, parsed, read]
      rfl
  | cpprest =>
      rw [RouterImpl.command] at asked
      simp only [RouterImpl.serve, CppRest.serve, CppRest.handle, asked, CppRest.perform, respond,
        CppRest.runResponse_eq]
      rfl

/-- What a start reports can be written. -/
theorem startRunner_reported {name : Bytes} (binary type : Bytes) {path : Bytes} {system : System}
    (nameValid : Utf8.valid name = true) (pathValid : Utf8.valid path = true)
    {result : CLlamaResult Bool}
    (returned : (startRunner os name binary type path system).1 = some result) :
    Reported (fun _ => True) result := by
  have startable : Startable os system name path := by
    cases running : find name system with
    | some r => exact Or.inl (by rw [running]; rfl)
    | none =>
        rw [startRunner, running, Option.isSome_none, if_neg Bool.false_ne_true] at returned
        unfold World.exists? at returned
        cases isFile : os.fileExists system.world.clock with
        | none =>
            rw [isFile] at returned
            cases returned
        | some isFile' =>
            cases isFile' with
            | false => exact Or.inr (Or.inr ⟨isFile, pathValid⟩)
            | true => exact Or.inr (Or.inl isFile)
  rcases (startRunner_outcome binary type path nameValid).mpr startable with
    ⟨other, isOther, reported⟩
  rw [returned] at isOther
  cases isOther
  exact reported

theorem runResponse_textual {name type : Bytes} {result : CLlamaResult Bool}
    (nameValid : Utf8.valid name = true) (typeValid : Utf8.valid type = true)
    (reported : Reported (fun _ => True) result) :
    (Api.runResponse name type result).Textual := by
  cases result with
  | ok started =>
      apply Json.Textual.ofKeys [bytes "name", bytes "runner_type", bytes "status"] rfl (by decide)
        (by decide +kernel)
      refine ⟨.str nameValid, .str ?_, .str (by decide)⟩
      split
      · decide
      · exact typeValid
  | error error =>
      apply Json.Textual.ofKeys [bytes "error", bytes "status"] rfl (by decide) (by decide +kernel)
      exact ⟨.str reported, .str (by decide)⟩

/-- What the client makes of the response to a start that was not rejected. -/
theorem finished_of_ok (codec : Codec) {serverUrl text received : Bytes} {start : RunnerStart}
    {started : Bool} {send : Bytes → Option (Int × Bytes)}
    (dumped : codec.dump start.body = some text) (sent : send text = some (200, received))
    (parsed : codec.parse received =
      some (Api.runResponse start.name start.runnerType (.ok started))) :
    cmdRunnerStart codec serverUrl start send =
      ⟨some 0, bytes "Runner started: " ++ line start.name, []⟩ := by
  have status : (Api.runResponse start.name start.runnerType (.ok started)).value Json.getString
      "status" [] = some (bytes "started") := rfl
  have name : (Api.runResponse start.name start.runnerType (.ok started)).value Json.getString
      "name" start.name = some start.name := rfl
  have differs : bytes "started" ≠ bytes "error" := by decide
  simp only [cmdRunnerStart, post, dumped, sent, parsed, status, name, ne_eq, not_true_eq_false,
    if_false, if_neg differs]
  simp [guarded, printAll]

theorem finished_of_error (codec : Codec) {serverUrl text received : Bytes} {start : RunnerStart}
    {error : Error} {send : Bytes → Option (Int × Bytes)}
    (dumped : codec.dump start.body = some text) (sent : send text = some (200, received))
    (parsed : codec.parse received =
      some (Api.runResponse start.name start.runnerType (.error error))) :
    cmdRunnerStart codec serverUrl start send =
      ⟨some 1, [], [bytes "Error: " ++ error.message]⟩ := by
  have status : (Api.runResponse start.name start.runnerType (.error error)).value Json.getString
      "status" [] = some (bytes "error") := rfl
  have message : (Api.runResponse start.name start.runnerType (.error error)).value Json.getString
      "error" (bytes "unknown") = some error.message := rfl
  simp only [cmdRunnerStart, post, dumped, sent, parsed, status, message, ne_eq,
    not_true_eq_false, if_false, if_true]

/-- A start of the model `m` under its own name. -/
def modelStart : RunnerStart where
  runnerName := []
  binary := []
  runnerType := bytes "cllama"
  model := bytes "m"

theorem reference_interoperable : Interoperable .reference where
  client := JsonText.reference_portable
  writes := JsonText.reference_lawful.dump_isSome
  reads := JsonText.reference_lawful.parse_dump
  readBack := JsonText.reference_lawful.parse_dump

theorem serve_stop_eq {router : RouterImpl} {stamps : Stamps} {directory : Option Directory}
    {body : Bytes} {system : System} {name : Bytes}
    (asked : router.command libraries system.manager .stop body = some (.stop name)) :
    router.serve os libraries stamps directory (.post .stop) body system =
      ⟨jsonResponse (libraryOf libraries router) 200 (Api.stopResponse name), some (.stop name),
        RunnerMgr.stop os name system⟩ := by
  cases router with
  | oatpp =>
      rcases Option.bind_eq_some_iff.mp asked with ⟨json, parsed, read⟩
      simp only [RouterImpl.serve, Oatpp.serve, Api.handle, parsed, read]
      rfl
  | cpprest =>
      rw [RouterImpl.command] at asked
      simp only [RouterImpl.serve, CppRest.serve, CppRest.handle, asked, CppRest.perform,
        CppRest.stopResponse_eq]
      rfl

theorem serve_stopAll_eq {router : RouterImpl} {stamps : Stamps} {directory : Option Directory}
    {body : Bytes} {system : System} :
    router.serve os libraries stamps directory .stopAll body system =
      ⟨jsonResponse (libraryOf libraries router) 200 Oatpp.stopAllResponse, none,
        stopAll os system⟩ := by
  cases router with
  | oatpp => rfl
  | cpprest =>
      simp only [RouterImpl.serve, CppRest.serve, CppRest.stopAllResponse_eq]
      rfl

/-- A child whose pid is not registered has been waited for. -/
theorem exists_entry_of_child {system : System} (consistent : Consistent system) :
    ∀ child ∈ system.world.children, ∃ name r,
      Entry system.manager.runners name r ∧ r.info.pid = child.pid := by
  intro child isChild
  apply (consistent.tracks.children child.pid).mpr
  rw [World.processes, List.map_map]
  exact List.mem_map_of_mem isChild

/-- A child that has been stopped is gone. -/
theorem stop_child_gone (codec : Codec) {system : System} (consistent : Consistent system)
    {name : Bytes} {r : Runner} (found : find name system = some r) :
    ∀ child ∈ (stop os name system).world.children, child.pid ≠ r.info.pid := by
  intro child isChild same
  have after : Consistent (stop os name system) :=
    @Consistent.act os codec _ consistent (.call (.stop name))
  rcases exists_entry_of_child after child isChild with ⟨other, o, entry, samePid⟩
  rw [Entry, stop_runners] at entry
  split at entry
  next => cases entry
  next differs =>
    have equal := consistent.tracks.distinct other name o r entry found (samePid.trans same)
    exact differs equal.symm

theorem stopAll_find (name : Bytes) (system : System) : find name (stopAll os system) = none :=
  Std.TreeMap.getElem?_emptyc

theorem stopAll_children (codec : Codec) {system : System} (consistent : Consistent system) :
    (stopAll os system).world.children = [] := by
  have after : Consistent (stopAll os system) :=
    @Consistent.act os codec _ consistent (.call .stopAll)
  apply List.eq_nil_iff_forall_not_mem.mpr
  intro child isChild
  rcases exists_entry_of_child after child isChild with ⟨name, r, entry, -⟩
  cases (stopAll_find name system).symm.trans entry

theorem stopResponse_textual {name : Bytes} (nameValid : Utf8.valid name = true) :
    (Api.stopResponse name).Textual := by
  apply Json.Textual.ofKeys [bytes "name", bytes "status"] rfl (by decide) (by decide +kernel)
  exact ⟨.str nameValid, .str (by decide)⟩

theorem stopAllResponse_textual : Oatpp.stopAllResponse.Textual := by
  apply Json.Textual.ofKeys [bytes "status"] rfl (by simp) (by decide +kernel)
  exact .str (by decide)

theorem nameBody_textual {name : Bytes} (nameValid : Utf8.valid name = true) :
    (nameBody name).Textual := by
  apply Json.Textual.ofKeys [bytes "name"] rfl (by simp) (by decide +kernel)
  exact .str nameValid

/-- What has become of a registry and of the children once a name, or `all`, has been stopped. -/
def StoppedBy (name : Bytes) (system next : System) : Prop :=
  if name = bytes "all" then
    (∀ other, find other next = none) ∧ next.world.children = []
  else
    (∀ other, find other next = if name = other then none else find other system) ∧
      ∀ r, find name system = some r → ∀ child ∈ next.world.children, child.pid ≠ r.info.pid

theorem stoppedBy_stop (codec : Codec) {system : System} (consistent : Consistent system)
    {name : Bytes} (single : name ≠ bytes "all") : StoppedBy name system (stop os name system) := by
  rw [StoppedBy, if_neg single]
  exact ⟨stop_runners system name, fun r found => stop_child_gone codec consistent found⟩

theorem stoppedBy_stopAll (codec : Codec) {system : System} (consistent : Consistent system) :
    StoppedBy (bytes "all") system (stopAll os system) := by
  rw [StoppedBy, if_pos rfl]
  exact ⟨fun other => stopAll_find other system, stopAll_children codec consistent⟩

/-- The path and the body that `runner stop` posts. -/
def stopRequest (codec : Codec) (name : Bytes) : Option (Bytes × Bytes) :=
  if name = bytes "all" then some (bytes "/v1/stop-all", bytes "\x7b\x7d")
  else (codec.dump (nameBody name)).map fun text => (bytes "/v1/stop", text)

end Cllama.Boundary
