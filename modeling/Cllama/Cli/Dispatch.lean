import Cllama.Cli.Commands
import Cllama.Util.CflagHelp

/-!
# What a command line runs

`main` compares the full name of the command it has parsed with one text after another.  Nothing
but these texts connects the functions it calls with the commands it has declared.
-/

namespace Cllama.Cli

open Cllama.Library Cllama.Util

/-- The functions that `main` calls. -/
inductive Handler where
  | serveList
  | serveStop
  | serveStart
  | runnerStart
  | runnerList
  | runnerStop
  | runnerChat
  | modelList
  | modelPull
  | modelRemove
  | modelShow
  deriving DecidableEq

/-- The variables that a function is called with.  `cmd_serve` is also given the path of the
runner's binary, which no option sets. -/
def Handler.vars : Handler → List Var
  | .serveList => []
  | .serveStop => [.serveStopTarget]
  | .serveStart =>
      [.serveName, .host, .port, .modelsFolder, .routerImpl, .daemonFlag, .pidfile, .logFile]
  | .runnerStart => [.serverUrl, .runnerName, .runnerBin, .runnerType, .modelName]
  | .runnerList => [.serverUrl]
  | .runnerStop => [.serverUrl, .runnerName]
  | .runnerChat => [.serverUrl, .runnerName, .chatMaxTokens, .chatTemp, .chatTopP, .chatTopK]
  | .modelList => [.serverUrl]
  | .modelPull | .modelRemove | .modelShow => [.serverUrl, .modelName]

/-- The branches of `main`. -/
inductive Branch where
  | generalHelp
  | serveHelp
  | runnerHelp
  | function (handler : Handler)
  deriving DecidableEq

/-- The comparisons of the name and of the full name. -/
def branch (name full : Bytes) : Branch :=
  if name = bytes "_global" ∨ name = [] then .generalHelp
  else if full = bytes "serve list" then .function .serveList
  else if full = bytes "serve stop" then .function .serveStop
  else if full = bytes "serve" then .serveHelp
  else if full = bytes "serve start" then .function .serveStart
  else if full = bytes "runner start" then .function .runnerStart
  else if full = bytes "runner list" then .function .runnerList
  else if full = bytes "runner stop" then .function .runnerStop
  else if full = bytes "runner" then .runnerHelp
  else if full = bytes "runner chat" then .function .runnerChat
  else if full = bytes "model list" then .function .modelList
  else if full = bytes "model pull" then .function .modelPull
  else if full = bytes "model remove" then .function .modelRemove
  else if full = bytes "model show" then .function .modelShow
  else .generalHelp

/-- What `main` does once it has parsed its arguments. -/
inductive Dispatch (F : Type) where
  | generalHelp
  | commandHelp (position : Position Var F)
  | calls (handler : Handler) (values : List (Value F))

section Main

variable {F : Type} (chat : ChatDefaults F)

def dispatch (position : Position Var F) (store : Var → Value F) : Dispatch F :=
  match branch position.command.name position.fullName with
  | .generalHelp => .generalHelp
  | .serveHelp => .commandHelp ⟨[], serveCmd chat⟩
  | .runnerHelp => .commandHelp ⟨[], runnerCmd chat⟩
  | .function handler => .calls handler (handler.vars.map store)

/-- `main`, on the arguments behind the name of the program. -/
def main (stof : Bytes → Option F) (args : List Bytes) (store : Var → Value F) :
    Except Failure (Dispatch F) :=
  ((app chat).parse stof args ((app chat).declare store)).map fun parsed =>
    dispatch chat parsed.1 parsed.2

/-! ## The words for a function -/

/-- The words that name a function's command. -/
def Handler.path : Handler → List Bytes
  | .serveList => [bytes "serve", bytes "list"]
  | .serveStop => [bytes "serve", bytes "stop"]
  | .serveStart => [bytes "serve", bytes "start"]
  | .runnerStart => [bytes "runner", bytes "start"]
  | .runnerList => [bytes "runner", bytes "list"]
  | .runnerStop => [bytes "runner", bytes "stop"]
  | .runnerChat => [bytes "runner", bytes "chat"]
  | .modelList => [bytes "model", bytes "list"]
  | .modelPull => [bytes "model", bytes "pull"]
  | .modelRemove => [bytes "model", bytes "remove"]
  | .modelShow => [bytes "model", bytes "show"]

/-- A command has the variables of a function. -/
def Handler.Serves (handler : Handler) (cmd : Command Var F) : Prop :=
  ∀ var, var ∈ handler.vars ↔ ∃ value ∈ cmd.ownValues, value.target = some var

/-- What `main` is to do for the words that select a command. -/
inductive Dispatched (path : List Bytes) (position : Position Var F) (store : Var → Value F) :
    Dispatch F → Prop where
  | function (handler : Handler) : path = handler.path → handler.Serves position.command →
      Dispatched path position store (.calls handler (handler.vars.map store))
  | group : path = [bytes "serve"] ∨ path = [bytes "runner"] →
      Dispatched path position store (.commandHelp position)
  | general : path = [] ∨ path = [bytes "_global"] ∨ path = [bytes "model"] →
      Dispatched path position store .generalHelp

variable {chat}

/-- The variables of a function in the order in which its command declares them. -/
def Handler.declared : Handler → List Var
  | .serveStart =>
      [.serveName, .logFile, .host, .port, .routerImpl, .modelsFolder, .daemonFlag, .pidfile]
  | .runnerChat => [.serverUrl, .chatTemp, .chatTopP, .chatTopK, .chatMaxTokens, .runnerName]
  | handler => handler.vars

theorem Handler.declared_perm (handler : Handler) : handler.declared.Perm handler.vars := by
  cases handler <;> decide

/-- Each function has a branch, for the full name of its command. -/
theorem branch_path (handler : Handler) (name : Bytes)
    (isName : handler.path.getLast? = some name) :
    branch name ([0x20].intercalate handler.path) = .function handler := by
  cases handler <;> cases isName <;> decide

variable {store : Var → Value F}

/-- A subcommand under the words of a function, with the function's variables. -/
theorem dispatched_of_declared (handler : Handler) {cmd sub : Command Var F}
    (isPath : [cmd.name, sub.name] = handler.path)
    (isFull : fullName [cmd] sub = [0x20].intercalate [cmd.name, sub.name])
    (declared : sub.ownValues.map TypedValue.target = handler.declared.map some) :
    Dispatched [cmd.name, sub.name] ⟨[cmd], sub⟩ store (dispatch chat ⟨[cmd], sub⟩ store) := by
  have isBranch : branch sub.name (fullName [cmd] sub) = .function handler := by
    rw [isFull, isPath]
    apply branch_path
    rw [← isPath]
    rfl
  have serves : handler.Serves sub := by
    intro var
    rw [← List.mem_map, declared, ← handler.declared_perm.mem_iff]
    simp
  rw [dispatch, Position.fullName, isBranch]
  exact .function handler isPath serves

theorem mem_commands {cmd : Command Var F} :
    cmd ∈ (app chat).commands ↔
      cmd = global chat ∨ cmd = serveCmd chat ∨ cmd = runnerCmd chat ∨ cmd = modelCmd chat := by
  simp [app]

theorem subcommand_dispatched {cmd sub : Command Var F} (isCommand : cmd ∈ (app chat).commands)
    (isSub : sub ∈ cmd.subcommands) :
    Dispatched [cmd.name, sub.name] ⟨[cmd], sub⟩ store (dispatch chat ⟨[cmd], sub⟩ store) := by
  have serveSubs : (serveCmd chat).subcommands = [serveStart chat, command "list",
      (command "stop").addArgument "name" .serveStopTarget (.string [])] := rfl
  have runnerSubs : (runnerCmd chat).subcommands = [runnerStart chat,
      withServer chat (command "list"),
      (withServer chat (command "stop")).addArgument "name" .runnerName (.string []),
      runnerChat chat] := rfl
  have modelSubs : (modelCmd chat).subcommands = [withServer chat (command "list"),
      modelCommand chat "pull", modelCommand chat "remove", modelCommand chat "show"] := rfl
  rw [mem_commands] at isCommand
  rcases isCommand with rfl | rfl | rfl | rfl
  · cases isSub
  · simp only [serveSubs, List.mem_cons, List.not_mem_nil, or_false] at isSub
    rcases isSub with rfl | rfl | rfl
    · exact dispatched_of_declared .serveStart rfl rfl rfl
    · exact dispatched_of_declared .serveList rfl rfl rfl
    · exact dispatched_of_declared .serveStop rfl rfl rfl
  · simp only [runnerSubs, List.mem_cons, List.not_mem_nil, or_false] at isSub
    rcases isSub with rfl | rfl | rfl | rfl
    · exact dispatched_of_declared .runnerStart rfl rfl rfl
    · exact dispatched_of_declared .runnerList rfl rfl rfl
    · exact dispatched_of_declared .runnerStop rfl rfl rfl
    · exact dispatched_of_declared .runnerChat rfl rfl rfl
  · simp only [modelSubs, List.mem_cons, List.not_mem_nil, or_false] at isSub
    rcases isSub with rfl | rfl | rfl | rfl
    · exact dispatched_of_declared .modelList rfl rfl rfl
    · exact dispatched_of_declared .modelPull rfl rfl rfl
    · exact dispatched_of_declared .modelRemove rfl rfl rfl
    · exact dispatched_of_declared .modelShow rfl rfl rfl

theorem top_dispatched {cmd : Command Var F} (isCommand : cmd ∈ (app chat).commands) :
    Dispatched [cmd.name] ⟨[], cmd⟩ store (dispatch chat ⟨[], cmd⟩ store) := by
  rw [mem_commands] at isCommand
  rcases isCommand with rfl | rfl | rfl | rfl
  · exact .general (.inr (.inl rfl))
  · exact .group (.inl rfl)
  · exact .group (.inr rfl)
  · exact .general (.inr (.inr rfl))

/-- The general help lists the commands of two words. -/
theorem mem_listed_app {path : List Bytes} {position : Position Var F} :
    (path, position) ∈ (app chat).listed ↔ (app chat).Names path position ∧ path.length = 2 := by
  have tops : ∀ cmd ∈ (app chat).commands, cmd.subcommands.isEmpty = true →
      cmd.name = bytes "_global" := of_decide_eq_true rfl
  have subs : ∀ cmd ∈ (app chat).commands, ∀ sub ∈ cmd.subcommands,
      sub.subcommands.isEmpty = true ∧ cmd.name ≠ bytes "_global" := of_decide_eq_true rfl
  rw [App.mem_listed_iff]
  constructor
  · rintro ⟨names, isLeaf, notDefault⟩
    refine ⟨names, ?_⟩
    rcases names_cases names with ⟨cmd, isCommand, rfl, rfl⟩ | ⟨cmd, -, sub, -, rfl, rfl⟩
    · have isGlobal := tops cmd isCommand (List.isEmpty_iff.mpr isLeaf)
      exact absurd ⟨⟨[], global chat⟩, rfl, rfl, congrArg some isGlobal⟩ notDefault
    · rfl
  · rintro ⟨names, isLong⟩
    refine ⟨names, ?_⟩
    rcases names_cases names with ⟨cmd, -, rfl, rfl⟩ | ⟨cmd, isCommand, sub, isSub, rfl, rfl⟩
    · cases isLong
    · have facts := subs cmd isCommand sub isSub
      refine ⟨List.isEmpty_iff.mp facts.1, ?_⟩
      rintro ⟨default, isDefault, -, isFirst⟩
      cases isDefault
      exact facts.2 (Option.some.inj isFirst)

theorem selects_dispatched {args path : List Bytes} {position : Position Var F}
    (selects : (app chat).Selects args path position) :
    Dispatched path position store (dispatch chat position store) := by
  rcases selects with ⟨names, -, -⟩ | ⟨rfl, isDefault, -⟩
  · rcases names_cases names with ⟨cmd, isCommand, rfl, rfl⟩ |
      ⟨cmd, isCommand, sub, isSub, rfl, rfl⟩
    · exact top_dispatched isCommand
    · exact subcommand_dispatched isCommand isSub
  · cases isDefault
    exact .general (.inl rfl)

/-- A function is called exactly for the commands that the general help lists. -/
theorem listed_iff_calls {args path : List Bytes} {position : Position Var F}
    {outcome : Dispatch F} (selects : (app chat).Selects args path position)
    (dispatched : Dispatched path position store outcome) :
    (path, position) ∈ (app chat).listed ↔ ∃ handler values, outcome = .calls handler values := by
  rw [mem_listed_app]
  cases dispatched with
  | function handler isPath serves =>
      have isLong : path.length = 2 := by
        rw [isPath]
        cases handler <;> rfl
      rcases selects with ⟨names, -, -⟩ | ⟨rfl, -, -⟩
      · exact ⟨fun _ => ⟨_, _, rfl⟩, fun _ => ⟨names, isLong⟩⟩
      · cases isLong
  | group isPath =>
      constructor
      · rintro ⟨-, isLong⟩
        rcases isPath with rfl | rfl <;> cases isLong
      · rintro ⟨handler, values, ⟨⟩⟩
  | general isPath =>
      constructor
      · rintro ⟨-, isLong⟩
        rcases isPath with rfl | rfl | rfl <;> cases isLong
      · rintro ⟨handler, values, ⟨⟩⟩

/-- Without arguments the default is selected. -/
theorem selects_default :
    (app chat).Selects [] [] ⟨[], global chat⟩ := by
  refine Or.inr ⟨rfl, rfl, ?_⟩
  intro longer other names isPrefix
  rw [List.prefix_nil.mp isPrefix] at names
  cases names

/-- For every command line that is accepted: the longest prefix that names a command selects it,
and what follows is bound.  `main` then calls the function that the words of the prefix are for,
with the values of all variables that the command declares and of no others; for `serve` and
`runner` it shows the help of that command; for `model`, or if no command was named, the general
help.  It calls a function exactly for the commands that the general help lists. -/
theorem main_dispatches (chat : ChatDefaults F) (stof : Bytes → Option F) (args : List Bytes)
    (store : Var → Value F) (outcome : Dispatch F)
    (ran : main chat stof args store = .ok outcome) :
    ∃ path rest position next, args = path ++ rest ∧ (app chat).Selects args path position ∧
      bindCommand stof position.command rest ((app chat).declare store) = .ok next ∧
      Dispatched path position next outcome ∧
      ((path, position) ∈ (app chat).listed ↔
        ∃ handler values, outcome = .calls handler values) := by
  rw [main] at ran
  cases parsed : (app chat).parse stof args ((app chat).declare store) with
  | error failure =>
      rw [parsed] at ran
      cases ran
  | ok found =>
      rcases found with ⟨position, next⟩
      rw [parsed] at ran
      cases ran
      by_cases given : args = []
      · subst given
        cases parsed
        exact ⟨[], [], _, _, rfl, selects_default, rfl, selects_dispatched selects_default,
          listed_iff_calls selects_default (selects_dispatched selects_default)⟩
      · rcases App.parse_bound given parsed with ⟨first, others, rest, rfl, selected, bound⟩
        rcases App.select_selects (app_wellFormed chat) selected with ⟨path, cut, selects, -⟩
        exact ⟨path, rest, position, next, cut, selects, bound, selects_dispatched selects,
          listed_iff_calls selects (selects_dispatched selects)⟩

end Main

/-- The name of a runner, and the server that is asked by default. -/
theorem main_dispatches_runnerStop :
    main (⟨7, 9⟩ : ChatDefaults Nat) (fun _ => none) (["runner", "stop", "m"].map bytes)
        (fun _ => .string []) =
      .ok (.calls .runnerStop [.string (bytes "http://localhost:8080"), .string (bytes "m")]) ∧
    ∃ path rest position next, ["runner", "stop", "m"].map bytes = path ++ rest ∧
      (app (⟨7, 9⟩ : ChatDefaults Nat)).Selects (["runner", "stop", "m"].map bytes) path position ∧
      bindCommand (fun _ => none) position.command rest
        ((app (⟨7, 9⟩ : ChatDefaults Nat)).declare fun _ => .string []) = .ok next ∧
      Dispatched path position next
        (.calls .runnerStop [.string (bytes "http://localhost:8080"), .string (bytes "m")]) ∧
      ((path, position) ∈ (app (⟨7, 9⟩ : ChatDefaults Nat)).listed ↔ ∃ handler values,
        (.calls .runnerStop [.string (bytes "http://localhost:8080"), .string (bytes "m")] :
          Dispatch Nat) = .calls handler values) :=
  ⟨rfl, main_dispatches ⟨7, 9⟩ (fun _ => none) (["runner", "stop", "m"].map bytes)
    (fun _ => .string []) _ rfl⟩

end Cllama.Cli
