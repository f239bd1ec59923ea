import Cllama.Library.Decimal
import Cllama.Platform.Process
import Mathlib.Data.List.Nodup

/-!
# The host of the command line client

The commands that manage `serve` instances look at the processes of the host and at files
in the temporary directory, and send signals.  A process is known by its pid only, and its
arguments by the line that `get_process_cmdline` makes of them.
-/

namespace Cllama.Platform

open Cllama.Library

/-! ## Processes -/

/-- What a running `serve start` remembers: its name, the file it removes when it exits, and
the directory it runs in. -/
structure Serve where
  name : Bytes
  pidfile : Bytes
  directory : Bytes
  deriving DecidableEq

/-- A process as `/proc` shows it.  The null signal reaches it if it is signalable, a zombie
included. -/
structure ProcessEntry where
  pid : Nat
  comm : Bytes
  argv : List Bytes
  zombie : Bool
  signalable : Bool
  serve : Option Serve
  deriving DecidableEq

/-- The processes of the host, each with a pid of its own. -/
structure ProcessTable where
  entries : List ProcessEntry
  positive : ∀ entry ∈ entries, 0 < entry.pid
  distinct : (entries.map ProcessEntry.pid).Nodup

namespace ProcessTable

variable (table : ProcessTable)

def empty : ProcessTable := ⟨[], List.forall_mem_nil _, List.nodup_nil⟩

def lookup (pid : Nat) : Option ProcessEntry :=
  table.entries.find? (·.pid = pid)

/-- The table without a process. -/
def remove (pid : Nat) : ProcessTable where
  entries := table.entries.filter (·.pid ≠ pid)
  positive entry isEntry := table.positive entry (List.mem_of_mem_filter isEntry)
  distinct := table.distinct.sublist (List.filter_sublist.map _)

/-- The table with another process. -/
def add (entry : ProcessEntry) (positive : 0 < entry.pid)
    (fresh : entry.pid ∉ table.entries.map ProcessEntry.pid) : ProcessTable where
  entries := entry :: table.entries
  positive := List.forall_mem_cons.mpr ⟨positive, table.positive⟩
  distinct := List.nodup_cons.mpr ⟨fresh, table.distinct⟩

variable {table}

theorem lookup_eq_some_iff {pid : Nat} {entry : ProcessEntry} :
    table.lookup pid = some entry ↔ entry ∈ table.entries ∧ entry.pid = pid := by
  constructor
  · intro found
    exact ⟨List.mem_of_find?_eq_some found, by simpa using List.find?_some found⟩
  · rintro ⟨isEntry, rfl⟩
    cases found : table.lookup entry.pid with
    | none => simpa using List.find?_eq_none.mp found entry isEntry
    | some other =>
        have isOther := List.mem_of_find?_eq_some found
        have same : other.pid = entry.pid := by simpa using List.find?_some found
        rw [List.inj_on_of_nodup_map table.distinct isOther isEntry same]

theorem mem_remove {pid : Nat} {entry : ProcessEntry} :
    entry ∈ (table.remove pid).entries ↔ entry ∈ table.entries ∧ entry.pid ≠ pid := by
  rw [remove, List.mem_filter, decide_eq_true_eq]

theorem lookup_remove {pid other : Nat} (differs : other ≠ pid) :
    (table.remove pid).lookup other = table.lookup other := by
  apply Option.ext
  intro entry
  rw [lookup_eq_some_iff, lookup_eq_some_iff, mem_remove]
  constructor
  · exact fun found => ⟨found.1.1, found.2⟩
  · rintro ⟨isEntry, rfl⟩
    exact ⟨⟨isEntry, differs⟩, rfl⟩

end ProcessTable

/-! ## The host -/

/-- Which file a path names, seen from a directory.  An absolute path names the same file
everywhere. -/
structure Paths where
  locate : (directory path : Bytes) → Bytes
  absolute : ∀ directory other path : Bytes,
    path.head? = some 0x2F → locate directory path = locate other path

/-- The processes, the contents of the files, and the signals sent so far. -/
structure Host where
  table : ProcessTable
  files : Bytes → Option Bytes
  signals : List (Nat × Signal)

namespace Host

variable (host : Host)

def tempDirectory : Bytes := bytes "/tmp/"

/-- The null signal reaches a process; pid zero stands for the caller's process group. -/
def processIsAlive (pid : Nat) : Bool :=
  pid = 0 || host.table.entries.any fun entry => entry.pid = pid && entry.signalable

def killProcess (pid : Nat) (signal : Signal) : Host :=
  { host with signals := host.signals ++ [(pid, signal)] }

/-- The arguments with spaces in between; none after arguments that are all empty. -/
def joinArgs (argv : List Bytes) : Bytes :=
  argv.foldl (fun cmdline seg => cmdline ++ ((if cmdline = [] then [] else [0x20]) ++ seg)) []

/-- The command line of a process; that of a zombie cannot be read any more. -/
def getProcessCmdline (pid : Nat) : Bytes :=
  match host.table.lookup pid with
  | some entry => if entry.zombie then [] else joinArgs entry.argv
  | none => []

/-- The processes that can be signalled and are no zombies, with the first lines of their
names. -/
def listProcesses : List (Nat × Bytes) :=
  (host.table.entries.filter fun entry => entry.signalable && !entry.zombie).map fun entry =>
    (entry.pid, entry.comm.takeWhile (· ≠ 0x0A))

def removeFile (file : Bytes) : Host :=
  { host with files := fun other => if other = file then none else host.files other }

def writeFile (file content : Bytes) : Host :=
  { host with files := fun other => if other = file then some content else host.files other }

/-- `cleanup_pidfile` of a process, which runs at its exit. -/
def cleanupPidfile (paths : Paths) (pid : Nat) : Host :=
  match (host.table.lookup pid).bind ProcessEntry.serve with
  | some serve =>
      if serve.pidfile = [] then host
      else host.removeFile (paths.locate serve.directory serve.pidfile)
  | none => host

/-- A process ends, and may run its exit handlers before. -/
def finish (paths : Paths) (cleanup : Bool) (pid : Nat) : Host :=
  let host := if cleanup then host.cleanupPidfile paths pid else host
  { host with table := host.table.remove pid }

section Frames

variable {host : Host} {pid : Nat} {signal : Signal} {file content : Bytes} {paths : Paths}
  {cleanup : Bool}

@[simp] theorem killProcess_table : (host.killProcess pid signal).table = host.table := rfl

@[simp] theorem killProcess_files : (host.killProcess pid signal).files = host.files := rfl

@[simp] theorem killProcess_signals :
    (host.killProcess pid signal).signals = host.signals ++ [(pid, signal)] := rfl

@[simp] theorem removeFile_table : (host.removeFile file).table = host.table := rfl

@[simp] theorem removeFile_signals : (host.removeFile file).signals = host.signals := rfl

@[simp] theorem cleanupPidfile_table : (host.cleanupPidfile paths pid).table = host.table := by
  rw [cleanupPidfile]
  split
  · split <;> rfl
  · rfl

@[simp] theorem cleanupPidfile_signals :
    (host.cleanupPidfile paths pid).signals = host.signals := by
  rw [cleanupPidfile]
  split
  · split <;> rfl
  · rfl

@[simp] theorem finish_table :
    (host.finish paths cleanup pid).table = host.table.remove pid := by
  cases cleanup <;> simp [finish]

@[simp] theorem finish_signals :
    (host.finish paths cleanup pid).signals = host.signals := by
  cases cleanup <;> simp [finish]

end Frames

end Host

end Cllama.Platform
