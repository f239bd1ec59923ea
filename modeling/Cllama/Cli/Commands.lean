import Cllama.Util.CflagCommands

/-!
# The commands of the client

What `main` declares before it parses its arguments: the tree of commands, and the variables
into which their values go.
-/

namespace Cllama.Cli

open Cllama.Library Cllama.Util

/-- The variables of `main` that options and arguments are stored in. -/
inductive Var where
  | modelsFolder
  | serverUrl
  | modelName
  | runnerName
  | runnerBin
  | runnerType
  | routerImpl
  | host
  | port
  | daemonFlag
  | pidfile
  | serveName
  | serveStopTarget
  | logFile
  | chatMaxTokens
  | chatTemp
  | chatTopP
  | chatTopK
  deriving DecidableEq

/-- The floating-point fallbacks, 0.7 and 0.9. -/
structure ChatDefaults (F : Type) where
  temp : F
  topP : F

section Declarations

variable {F : Type} (chat : ChatDefaults F)

/-- What a variable holds unless it is set. -/
def fallback : Var → Value F
  | .modelsFolder => .string (bytes "./models")
  | .serverUrl => .string (bytes "http://localhost:8080")
  | .runnerType => .string (bytes "cllama")
  | .routerImpl => .string (bytes "oatpp")
  | .host => .string (bytes "0.0.0.0")
  | .port => .int 8080
  | .daemonFlag => .bool false
  | .chatMaxTokens => .int 512
  | .chatTemp => .float chat.temp
  | .chatTopP => .float chat.topP
  | .chatTopK => .int 40
  | .modelName | .runnerName | .runnerBin | .pidfile | .serveName | .serveStopTarget | .logFile =>
      .string []

def command (name : String) : Command Var F :=
  .mk (bytes name) [] [] []

/-- `add_option` with the fallback of the variable. -/
def withOption (full : String) (var : Var) (cmd : Command Var F) : Command Var F :=
  cmd.addOption full var (fallback chat var) false

def withServer : Command Var F → Command Var F :=
  withOption chat "--server" .serverUrl

def global : Command Var F :=
  command "_global" |> withOption chat "--models-folder" .modelsFolder

def serveStart : Command Var F :=
  let cmd := command "start"
    |> withOption chat "--name,-n" .serveName
    |> withOption chat "--log-file" .logFile
    |> withOption chat "--host,-H" .host
    |> withOption chat "--port,-p" .port
    |> withOption chat "--impl,--router" .routerImpl
  let cmd := cmd.addOption "--models-folder" .modelsFolder (fallback chat .modelsFolder) true
  cmd.addFlag "--daemon,-d" .daemonFlag |> withOption chat "--pidfile" .pidfile

def serveCmd : Command Var F :=
  ((command "serve").addSubcommand (serveStart chat)).addSubcommand (command "list")
    |>.addSubcommand ((command "stop").addArgument "name" .serveStopTarget (.string []))

def runnerStart : Command Var F :=
  let cmd := command "start"
    |> withServer chat
    |> withOption chat "--name,-n" .runnerName
    |> withOption chat "--binary" .runnerBin
    |> withOption chat "--type" .runnerType
  cmd.addArgument "model" .modelName (.string [])

def runnerChat : Command Var F :=
  let cmd := command "chat"
    |> withServer chat
    |> withOption chat "--temp" .chatTemp
    |> withOption chat "--top-p" .chatTopP
    |> withOption chat "--top-k" .chatTopK
    |> withOption chat "--max-tokens" .chatMaxTokens
  cmd.addArgument "name" .runnerName (.string [])

def runnerCmd : Command Var F :=
  let stop := (withServer chat (command "stop")).addArgument "name" .runnerName (.string [])
  ((((command "runner").addSubcommand (runnerStart chat)).addSubcommand
    (withServer chat (command "list"))).addSubcommand stop).addSubcommand (runnerChat chat)

/-- The commands on one model of the server. -/
def modelCommand (name : String) : Command Var F :=
  (withServer chat (command name)).addArgument "name" .modelName (.string [])

def modelCmd : Command Var F :=
  ((((command "model").addSubcommand (withServer chat (command "list"))).addSubcommand
    (modelCommand chat "pull")).addSubcommand (modelCommand chat "remove")).addSubcommand
    (modelCommand chat "show")

def app : App Var F where
  commands := [global chat, serveCmd chat, runnerCmd chat, modelCmd chat]
  default := some ⟨[], global chat⟩

end Declarations

/-! ## The declaration is well formed -/

section WellFormed

variable {F : Type} (chat : ChatDefaults F)

/-- The variables in the order of their declarations, that of the default command twice. -/
def declaredVars : List Var :=
  [.modelsFolder,
    .serveName, .logFile, .host, .port, .routerImpl, .modelsFolder, .daemonFlag, .pidfile,
    .serveStopTarget,
    .serverUrl, .runnerName, .runnerBin, .runnerType, .modelName,
    .serverUrl,
    .serverUrl, .runnerName,
    .serverUrl, .chatTemp, .chatTopP, .chatTopK, .chatMaxTokens, .runnerName,
    .serverUrl,
    .serverUrl, .modelName,
    .serverUrl, .modelName,
    .serverUrl, .modelName,
    .modelsFolder]

theorem app_values : (app chat).all.flatMap Command.ownValues =
    declaredVars.map fun var => ⟨some var, fallback chat var⟩ := rfl

theorem app_wellFormed : (app chat).WellFormed where
  named := of_decide_eq_true rfl
  top := of_decide_eq_true rfl
  siblings := of_decide_eq_true rfl
  default := by
    rintro position ⟨⟩
    rfl
  distinct cmd isCommand := by
    have names : ∀ cmd ∈ (app chat).all,
        cmd.options.Pairwise fun opt other => ∀ name ∈ opt.names, name ∉ other.names :=
      of_decide_eq_true rfl
    have targets : ∀ cmd ∈ (app chat).all, cmd.ownValues.Pairwise TypedValue.Apart :=
      of_decide_eq_true rfl
    exact ⟨names cmd isCommand, targets cmd isCommand⟩
  shared := by
    refine ⟨fallback chat, fun cmd isCommand value isOwn var hasTarget => ?_⟩
    have isValue := List.mem_flatMap.mpr ⟨cmd, isCommand, isOwn⟩
    rw [app_values] at isValue
    rcases List.mem_map.mp isValue with ⟨declared, -, rfl⟩
    cases hasTarget
    rfl

end WellFormed

/-! ## The command that starts an instance -/

section ServeStart

variable {F : Type} {chat : ChatDefaults F}

/-- The commands that names lead to in a tree of two levels. -/
theorem names_cases {path : List Bytes} {position : Position Var F}
    (names : (app chat).Names path position) :
    (∃ cmd ∈ (app chat).commands, path = [cmd.name] ∧ position = ⟨[], cmd⟩) ∨
      ∃ cmd ∈ (app chat).commands, ∃ sub ∈ cmd.subcommands,
        path = [cmd.name, sub.name] ∧ position = ⟨[cmd], sub⟩ := by
  have leaves : ∀ cmd ∈ (app chat).commands, ∀ sub ∈ cmd.subcommands,
      sub.subcommands.isEmpty = true := of_decide_eq_true rfl
  cases path with
  | nil => cases names
  | cons name path =>
      rcases names with ⟨cmd, isCommand, rfl, leads⟩
      cases leads with
      | here => exact Or.inl ⟨cmd, isCommand, rfl, rfl⟩
      | @down _ _ sub _ _ isSub leads =>
          right
          cases leads with
          | here => exact ⟨cmd, isCommand, sub, isSub, rfl, rfl⟩
          | down isBelow _ =>
              rw [List.isEmpty_iff.mp (leaves cmd isCommand sub isSub)] at isBelow
              cases isBelow

theorem eq_serveStart {path : List Bytes} {position : Position Var F}
    (names : (app chat).Names path position) (isStart : position.fullName = bytes "serve start") :
    path = [bytes "serve", bytes "start"] ∧ position.command = serveStart chat := by
  have tops : ∀ cmd ∈ (app chat).commands, cmd.name ≠ bytes "serve start" := of_decide_eq_true rfl
  have subs : ∀ cmd ∈ (app chat).commands, ∀ sub ∈ cmd.subcommands,
      fullName [cmd] sub = bytes "serve start" →
        cmd.name = bytes "serve" ∧ sub.name = bytes "start" := of_decide_eq_true rfl
  rcases names_cases names with ⟨cmd, isCommand, -, rfl⟩ | ⟨cmd, isCommand, sub, isSub, rfl, rfl⟩
  · exact absurd isStart (tops cmd isCommand)
  · rcases subs cmd isCommand sub isSub isStart with ⟨serveName, startName⟩
    have isServe := find_name_eq (app_wellFormed chat).top isCommand
    rw [serveName] at isServe
    have same : cmd = serveCmd chat := (Option.some.inj isServe).symm
    subst same
    have isFound := find_name_eq ((app_wellFormed chat).siblings (serveCmd chat)
      (mem_allOf isCommand (self_mem_all _))) isSub
    rw [startName] at isFound
    rw [serveName, startName]
    exact ⟨rfl, (Option.some.inj isFound).symm⟩

/-- What is parsed as `serve start` starts with these words, and what follows them is bound. -/
theorem serveStart_bound {stof : Bytes → Option F} {args : List Bytes}
    {store next : Var → Value F} {position : Position Var F}
    (parsed : (app chat).parse stof args store = .ok (position, next))
    (isStart : position.fullName = bytes "serve start") :
    ∃ rest, args = bytes "serve" :: bytes "start" :: rest ∧
      bindCommand stof (serveStart chat) rest store = .ok next := by
  have notDefault : (⟨[], global chat⟩ : Position Var F).fullName ≠ bytes "serve start" :=
    of_decide_eq_true rfl
  have given : args ≠ [] := by
    rintro rfl
    cases parsed
    exact notDefault isStart
  rcases App.parse_bound given parsed with ⟨first, others, rest, rfl, selected, bound⟩
  rcases App.select_selects (app_wellFormed chat) selected with ⟨path, cut, selects, -⟩
  rcases selects with ⟨names, -, -⟩ | ⟨-, isDefault, -⟩
  · rcases eq_serveStart names isStart with ⟨rfl, isCommand⟩
    rw [isCommand] at bound
    exact ⟨rest, cut, bound⟩
  · cases isDefault
    exact absurd isStart notDefault

theorem serveStart_mem_all : serveStart chat ∈ (app chat).all := by
  have isCommand : serveCmd chat ∈ (app chat).commands := by simp [app]
  have isSub : serveStart chat ∈ (serveCmd chat).subcommands := by
    simp [serveCmd, command, Command.addSubcommand, Command.subcommands]
  exact List.mem_append_left _
    (mem_allOf isCommand (mem_all_of_subcommand isSub (self_mem_all _)))

end ServeStart

end Cllama.Cli
