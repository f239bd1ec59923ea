import Cllama.Cli.Commands
import Cllama.Cli.Serve
import Cllama.Library.Words

/-!
# Listing `serve` instances

`serve list` shows what each instance was started with.  It has nothing but the command lines
of the processes, with spaces between the arguments: these it cuts into words again, among
which it looks for the options of `serve start`.
-/

namespace Cllama.Cli

open Cllama.Library Cllama.Platform Cllama.Util

/-! ## The settings of an instance -/

/-- The settings that are shown. -/
inductive Setting where
  | host
  | port
  | models
  | name
  | daemon
  deriving DecidableEq

structure ServeSettings where
  host : Bytes := bytes "0.0.0.0"
  port : Int := 8080
  models : Bytes := bytes "./models"
  name : Bytes := []
  daemon : Bool := false
  deriving DecidableEq

/-- The setting whose option a word is. -/
def settingOf (arg : Bytes) : Option Setting :=
  if arg = bytes "--host" ∨ arg = bytes "-H" then some .host
  else if arg = bytes "--port" ∨ arg = bytes "-p" then some .port
  else if arg = bytes "--models-folder" then some .models
  else if arg = bytes "--name" ∨ arg = bytes "-n" then some .name
  else if arg = bytes "--daemon" ∨ arg = bytes "-d" then some .daemon
  else none

/-- A setting from the word behind its option; none is an exception of `stoi`. -/
def ServeSettings.set (settings : ServeSettings) (value : Bytes) :
    Setting → Option ServeSettings
  | .host => some { settings with host := value }
  | .port => (Decimal.stoiInt value).map fun port => { settings with port := port }
  | .models => some { settings with models := value }
  | .name => some { settings with name := value }
  | .daemon => some { settings with daemon := true }

/-- The loop over the words. -/
def scan : List Bytes → ServeSettings → Option ServeSettings
  | [], settings => some settings
  | arg :: args, settings =>
      match settingOf arg with
      | none => scan args settings
      | some .daemon => scan args { settings with daemon := true }
      | some setting =>
          match args with
          | [] => some settings
          | value :: args =>
              match settings.set value setting with
              | none => none
              | some settings => scan args settings

/-! ## The command -/

/-- A line of the list. -/
structure Row where
  pid : Nat
  settings : ServeSettings
  startedAt : Bytes
  deriving DecidableEq

section Commands

variable (paths : Paths) (directory : Bytes) (host : Host)

/-- The companion file of an instance. -/
def infoPath (pid : Nat) (name : Bytes) : Bytes :=
  Host.tempDirectory ++ bytes "cllama-serve-" ++
    (if name = [] then bytes (toString pid) else name) ++ bytes ".info"

/-- The first line of the companion file. -/
def startedAt (pid : Nat) (name : Bytes) : Bytes :=
  match host.files (paths.locate directory (infoPath pid name)) with
  | none => bytes "-"
  | some content => content.takeWhile (· ≠ 0x0A)

/-- One round of the loop over the processes: at most one line, or an exception. -/
def listRow (process : Nat × Bytes) : Option (List Row) :=
  let cmdline := host.getProcessCmdline process.1
  if (find (bytes "cllama") process.2).isSome && looksLikeServe cmdline then
    (scan (words cmdline) {}).map fun settings =>
      [⟨process.1, settings, startedAt paths directory host process.1 settings.name⟩]
  else some []

def listRows : List (Nat × Bytes) → Option Int × List Row
  | [] => (some 0, [])
  | process :: processes =>
      match listRow paths directory host process with
      | none => (none, [])
      | some rows =>
          let rest := listRows processes
          (rest.1, rows ++ rest.2)

/-- The exit code of `serve list`, unless an exception escapes, and the lines of the list. -/
def cmdServeList : Option Int × List Row :=
  listRows paths directory host host.listProcesses

end Commands

end Cllama.Cli
