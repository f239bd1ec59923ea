import Cllama.Platform.Host

/-!
# Stopping `serve` instances

`serve stop` takes a name, a pid or the word "all".  A name is looked up in a pidfile; for
"all" the processes are searched for instances by their names and command lines.
-/

namespace Cllama.Cli

open Cllama.Library Cllama.Platform

/-! ## Searching -/

/-- `std::string::find` of a string. -/
def find (sub text : Bytes) : Option Nat :=
  (List.range (text.length + 1)).find? fun pos => sub <+: text.drop pos

theorem find_eq_some_iff {sub text : Bytes} {pos : Nat} :
    find sub text = some pos ↔
      pos ≤ text.length ∧ sub <+: text.drop pos ∧
        ∀ earlier < pos, ¬sub <+: text.drop earlier := by
  simp only [find, List.find?_range_eq_some, decide_eq_true_eq, List.mem_range,
    Bool.not_eq_true', decide_eq_false_iff_not, Nat.lt_succ_iff]
  tauto

theorem find_eq_none_iff {sub text : Bytes} : find sub text = none ↔ ¬sub <:+: text := by
  simp only [find, List.find?_eq_none, List.mem_range, Nat.lt_succ_iff, decide_eq_true_eq]
  constructor
  · rintro absent ⟨before, after, rfl⟩
    apply absent before.length (by simp)
    simp [List.append_assoc]
  · rintro absent pos - ⟨after, isRest⟩
    apply absent
    exact ⟨text.take pos, after, by rw [List.append_assoc, isRest, List.take_append_drop]⟩

/-- The characters up to the next space. -/
def word (text : Bytes) : Bytes :=
  text.takeWhile (· ≠ 0x20)

/-- The word behind a flag in a command line. -/
def flagValue (flag : String) (cmdline : Bytes) : Bytes :=
  match find (bytes flag) cmdline with
  | some pp => word (cmdline.drop (pp + (bytes flag).length))
  | none => []

/-! ## Instances by name -/

section Commands

variable (paths : Paths) (directory : Bytes)

/-- The path of the pidfile that belongs to a name. -/
def namePidfile (name : Bytes) : Bytes :=
  Host.tempDirectory ++ bytes "cllama-serve-" ++ name ++ bytes ".pid"

def resolveServeName (name : Bytes) (host : Host) : Option Nat × Host :=
  let pf := paths.locate directory (namePidfile name)
  match (host.files pf).bind Decimal.extractPositive with
  | none => (none, host)
  | some pid => if host.processIsAlive pid then (some pid, host) else (none, host.removeFile pf)

/-! ## Stopping a process -/

/-- How a process takes the signals: whether it ends while it is polled after the first one,
and then with its exit handlers or without; and whether it ends after the second one. -/
structure Fate where
  afterTerm : Option Bool
  afterKill : Bool

/-- The first part of `stop_process`.  An empty command line has no flags. -/
def removePidfiles (pid : Nat) (host : Host) : Host :=
  let cmdline := host.getProcessCmdline pid
  let pf := flagValue "--pidfile " cmdline
  let host := if pf = [] then host else host.removeFile (paths.locate directory pf)
  let nm := flagValue "--name " cmdline
  if nm = [] then host else host.removeFile (paths.locate directory (namePidfile nm))

def stopProcess (fate : Fate) (pid : Nat) (host : Host) : Host :=
  let host := removePidfiles paths directory pid host
  let host := host.killProcess pid .term
  let host :=
    match fate.afterTerm with
    | some cleanup => host.finish paths cleanup pid
    | none => host
  if host.processIsAlive pid then
    let host := host.killProcess pid .kill
    if fate.afterKill then host.finish paths false pid else host
  else host

/-! ## The command -/

/-- What the command line of an instance looks like: "cllama serve", and behind it no word
of another subcommand. -/
def looksLikeServe (cmdline : Bytes) : Bool :=
  match find (bytes "cllama serve") cmdline with
  | none => false
  | some pos =>
      let rest := word ((cmdline.drop (pos + 13)).dropWhile (· = 0x20))
      !decide (rest ∈ [bytes "list", bytes "stop", bytes "--help", bytes "-h"])

variable (fates : Nat → Fate)

/-- One round of the loop over the processes. -/
def stopIfServe (host : Host) (process : Nat × Bytes) : Host :=
  if (find (bytes "cllama") process.2).isSome &&
      looksLikeServe (host.getProcessCmdline process.1) then
    stopProcess paths directory (fates process.1) process.1 host
  else host

def cmdServeStopAll (host : Host) : Host :=
  host.listProcesses.foldl (stopIfServe paths directory fates) host

/-- The exit code of `serve stop`, unless an exception escapes. -/
def cmdServeStop (target : Bytes) (host : Host) : Option Int × Host :=
  if target = [] then (some 1, host)
  else if target = bytes "all" then (some 0, cmdServeStopAll paths directory fates host)
  else if target.all Decimal.isDigit then
    match Decimal.stoi target with
    | none => (none, host)
    | some pid =>
        if host.processIsAlive pid then
          (some 0, stopProcess paths directory (fates pid) pid host)
        else (some 1, host)
  else
    match resolveServeName paths directory target host with
    | (none, host) => (some 1, host)
    | (some pid, host) => (some 0, stopProcess paths directory (fates pid) pid host)

end Commands

end Cllama.Cli
