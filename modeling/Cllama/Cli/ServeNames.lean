import Cllama.Cli.ServeStop
import Cllama.Library.Transition

/-!
# Names of `serve` instances

An instance with a name writes its pid to a file that belongs to the name, unless it is given
another file.  The file is removed by the instance when it exits, by `serve stop`, and by a
lookup that finds no such process; a crash leaves it behind.  The machine below interleaves
the lives of any number of instances; a name stays resolvable as long as every step meets a
condition on the state before it.
-/

namespace Cllama.Cli

open Cllama.Library Cllama.Platform

/-! ## Instances come and go -/

/-- A `serve start` that has got as far as its main loop: its process, what it has read from
its arguments, and whether its pidfile could be opened. -/
structure Launch where
  pid : Nat
  comm : Bytes
  argv : List Bytes
  directory : Bytes
  serveName : Bytes
  pidfile : Bytes
  daemonFlag : Bool
  writable : Bool

namespace Launch

variable (paths : Paths) (launch : Launch)

def effectivePidfile : Bytes :=
  if launch.serveName ≠ [] ∧ launch.pidfile = [] then namePidfile launch.serveName
  else launch.pidfile

/-- Whether the pid is written. -/
def writes : Bool :=
  launch.effectivePidfile ≠ [] && launch.writable

/-- The file that holds the pid. -/
def file : Bytes :=
  paths.locate launch.directory launch.effectivePidfile

/-- The new process.  A daemon remembers its pidfile even if it could not be opened. -/
def entry : ProcessEntry where
  pid := launch.pid
  comm := launch.comm
  argv := launch.argv
  zombie := false
  signalable := true
  serve := some
    { name := launch.serveName
      pidfile := if launch.daemonFlag || launch.writes then launch.effectivePidfile else []
      directory := launch.directory }

end Launch

/-- The pid as it stands in a pidfile. -/
def pidLine (pid : Nat) : Bytes := bytes (toString pid) ++ [0x0A]

/-- What can happen: an instance is started, exits, or any process ends without its exit
handlers; another process comes up with a free pid, which may be what a crashed child leaves
in the table; or an instance is stopped by its name. -/
inductive ServeAction where
  | start (launch : Launch)
  | exit (pid : Nat)
  | crash (pid : Nat)
  | occupy (entry : ProcessEntry)
  | stop (directory name : Bytes) (fate : Fate)

/-- A target of `serve stop` that is looked up as a name. -/
def IsName (name : Bytes) : Prop :=
  name ≠ [] ∧ name ≠ bytes "all" ∧ name.all Decimal.isDigit = false

instance (name : Bytes) : Decidable (IsName name) :=
  inferInstanceAs (Decidable (_ ∧ _ ∧ _))

section Machine

variable (paths : Paths)

/-- `cmd_serve` up to its main loop. -/
def cmdServe (launch : Launch) (host : Host) : Option Host :=
  if free : 0 < launch.pid ∧ launch.pid ∉ host.table.entries.map ProcessEntry.pid then
    let next := { host with table := host.table.add launch.entry free.1 free.2 }
    some (if launch.writes then next.writeFile (launch.file paths) (pidLine launch.pid) else next)
  else none

def ServeAction.step (host : Host) : ServeAction → Option Host
  | .start launch =>
      if launch.pid ≤ Decimal.intMax then cmdServe paths launch host else none
  | .exit pid =>
      if ((host.table.lookup pid).bind ProcessEntry.serve).isSome then
        some (host.finish paths true pid)
      else none
  | .crash pid =>
      if (host.table.lookup pid).isSome then some (host.finish paths false pid) else none
  | .occupy entry =>
      if free : 0 < entry.pid ∧ entry.pid ∉ host.table.entries.map ProcessEntry.pid then
        if entry.serve = none then some { host with table := host.table.add entry free.1 free.2 }
        else none
      else none
  | .stop directory name fate =>
      if IsName name then some (cmdServeStop paths directory (fun _ => fate) name host).2
      else none

/-- The file that belongs to a name. -/
def nameFile (name : Bytes) : Bytes := paths.locate [] (namePidfile name)

/-- No instance is running and no pidfile of a name is there. -/
structure Unused (host : Host) : Prop where
  processes : ∀ entry ∈ host.table.entries, entry.serve = none
  files : ∀ name, name ≠ [] → host.files (nameFile paths name) = none

/-- The lives of instances. -/
def serves : Machine Host ServeAction where
  Initial := Unused paths
  step := ServeAction.step paths

/-! ## Resolvable names -/

/-- A live instance that was started with a name. -/
def Runs (host : Host) (pid : Nat) (name : Bytes) : Prop :=
  ∃ entry ∈ host.table.entries, entry.pid = pid ∧
    ∃ serve, entry.serve = some serve ∧ serve.name = name

/-- A name resolves to an instance of that name, and to nothing only if there is none. -/
structure Resolvable (host : Host) (name : Bytes) : Prop where
  sound : ∀ directory pid,
    (resolveServeName paths directory name host).1 = some pid → Runs host pid name
  complete : ∀ directory, (resolveServeName paths directory name host).1 = none →
    ∀ pid, ¬Runs host pid name

/-- The pid that the file of a name holds. -/
def holder (host : Host) (name : Bytes) : Option Nat :=
  (host.files (nameFile paths name)).bind Decimal.extractPositive

/-- A name resolves to a pid. -/
def Resolves (host : Host) (name : Bytes) (pid : Nat) : Prop :=
  holder paths host name = some pid ∧ host.processIsAlive pid = true

/-! ## The condition on a step -/

/-- Processes may go and files may be removed: of no name whose file is removed, or holds the
pid of a process that goes, is another instance left. -/
def Keeps (host : Host) (gone : Nat → Prop) (removed : Bytes → Prop) : Prop :=
  ∀ name, name ≠ [] →
    (removed (nameFile paths name) ∨ ∃ pid, gone pid ∧ holder paths host name = some pid) →
      ∀ other, ¬gone other → ¬Runs host other name

/-- The file that a process removes when it exits. -/
def CleanupFile (host : Host) (pid : Nat) (file : Bytes) : Prop :=
  ∃ serve, (host.table.lookup pid).bind ProcessEntry.serve = some serve ∧
    serve.pidfile ≠ [] ∧ file = paths.locate serve.directory serve.pidfile

/-- The files that `stop_process` finds in a command line. -/
def FlagFile (directory cmdline file : Bytes) : Prop :=
  flagValue "--pidfile " cmdline ≠ [] ∧
      file = paths.locate directory (flagValue "--pidfile " cmdline) ∨
    flagValue "--name " cmdline ≠ [] ∧
      file = paths.locate directory (namePidfile (flagValue "--name " cmdline))

/-- The file of a name holds the pid of an instance once it has started. -/
def Launch.Claims (host : Host) (launch : Launch) (name : Bytes) : Prop :=
  launch.writes = true ∧ launch.file paths = nameFile paths name ∨
    holder paths host name = some launch.pid

/-- A process that is stopped ends. -/
def Fate.Ends (fate : Fate) : Prop :=
  fate.afterTerm.isSome = true ∨ fate.afterKill = true

/-- The condition on a step. -/
def Fits (host : Host) : ServeAction → Prop
  | .start launch =>
      (∀ name, name ≠ [] → launch.Claims paths host name → launch.serveName = name) ∧
        (launch.serveName ≠ [] → launch.Claims paths host launch.serveName ∨
          ∃ pid, Runs host pid launch.serveName)
  | .exit pid => Keeps paths host (· = pid) (CleanupFile paths host pid)
  | .crash pid => Keeps paths host (· = pid) fun _ => False
  | .occupy entry =>
      entry.signalable = true → ∀ name, name ≠ [] → holder paths host name ≠ some entry.pid
  | .stop directory name fate =>
      ∀ pid, Resolves paths host name pid →
        Keeps paths host (fun other => fate.Ends ∧ other = pid) fun file =>
          FlagFile paths directory (host.getProcessCmdline pid) file ∨
            fate.afterTerm = some true ∧ CleanupFile paths host pid file

end Machine

/-! ## Lookups -/

section Lookups

variable {paths : Paths} {host next : Host} {name : Bytes}

theorem locate_namePidfile (directory : Bytes) :
    paths.locate directory (namePidfile name) = nameFile paths name :=
  paths.absolute directory [] _ rfl

theorem resolveServeName_eq (directory : Bytes) :
    resolveServeName paths directory name host =
      match holder paths host name with
      | none => (none, host)
      | some pid =>
          if host.processIsAlive pid then (some pid, host)
          else (none, host.removeFile (nameFile paths name)) := by
  rw [holder, ← locate_namePidfile directory]
  rfl

theorem resolveServeName_eq_some_iff {directory : Bytes} {pid : Nat} :
    (resolveServeName paths directory name host).1 = some pid ↔ Resolves paths host name pid := by
  rw [resolveServeName_eq, Resolves]
  cases holder paths host name with
  | none => simp
  | some found =>
      dsimp only
      rw [Option.some.injEq]
      split
      next alive =>
        rw [Option.some.injEq]
        exact ⟨fun same => ⟨same, same ▸ alive⟩, fun both => both.1⟩
      next dead =>
        apply iff_of_false nofun
        rintro ⟨rfl, alive⟩
        exact dead alive

theorem resolvable_iff :
    Resolvable paths host name ↔
      (∀ pid, Resolves paths host name pid → Runs host pid name) ∧
        ∀ pid, Runs host pid name → ∃ found, Resolves paths host name found := by
  constructor
  · rintro ⟨sound, complete⟩
    refine ⟨fun pid resolves => sound [] pid (resolveServeName_eq_some_iff.mpr resolves), ?_⟩
    intro pid runs
    cases found : (resolveServeName paths [] name host).1 with
    | none => exact absurd runs (complete [] found pid)
    | some other => exact ⟨other, resolveServeName_eq_some_iff.mp found⟩
  · rintro ⟨sound, complete⟩
    constructor
    · exact fun directory pid found => sound pid (resolveServeName_eq_some_iff.mp found)
    · intro directory notFound pid runs
      rcases complete pid runs with ⟨other, resolves⟩
      rw [resolveServeName_eq_some_iff.mpr resolves] at notFound
      cases notFound

theorem holder_pos {pid : Nat} (holds : holder paths host name = some pid) : 0 < pid := by
  rcases Option.bind_eq_some_iff.mp holds with ⟨content, -, read⟩
  exact Decimal.pos_of_extractPositive read

theorem processIsAlive_iff_of_pos {pid : Nat} (positive : 0 < pid) :
    host.processIsAlive pid = true ↔
      ∃ entry ∈ host.table.entries, entry.pid = pid ∧ entry.signalable = true := by
  rw [processIsAlive_iff]
  exact or_iff_right (Nat.ne_of_gt positive)

end Lookups

/-! ## Processes that go -/

/-- Some processes go, and some files are removed. -/
structure Shrinks (host next : Host) (gone : Nat → Prop) (removed : Bytes → Prop) : Prop where
  entries : ∀ entry, entry ∈ next.table.entries ↔
    entry ∈ host.table.entries ∧ ¬gone entry.pid
  removedFiles : ∀ file, removed file → next.files file = none
  keptFiles : ∀ file, ¬removed file → next.files file = host.files file

namespace Shrinks

variable {paths : Paths} {host middle next : Host} {gone gone' : Nat → Prop}
  {removed removed' : Bytes → Prop} {name : Bytes}

theorem refl (host : Host) : Shrinks host host (fun _ => False) fun _ => False where
  entries entry := by simp
  removedFiles file isRemoved := isRemoved.elim
  keptFiles file _ := rfl

theorem trans (first : Shrinks host middle gone removed)
    (second : Shrinks middle next gone' removed') :
    Shrinks host next (fun pid => gone pid ∨ gone' pid)
      fun file => removed file ∨ removed' file where
  entries entry := by
    rw [second.entries, first.entries, not_or, and_assoc]
  removedFiles file isRemoved := by
    by_cases later : removed' file
    · exact second.removedFiles file later
    · rw [second.keptFiles file later]
      exact first.removedFiles file (isRemoved.resolve_right later)
  keptFiles file isKept := by
    rw [not_or] at isKept
    rw [second.keptFiles file isKept.2, first.keptFiles file isKept.1]

theorem congr (shrinks : Shrinks host next gone removed) (sameGone : ∀ pid, gone pid ↔ gone' pid)
    (sameRemoved : ∀ file, removed file ↔ removed' file) : Shrinks host next gone' removed' := by
  rwa [← funext fun pid => propext (sameGone pid),
    ← funext fun file => propext (sameRemoved file)]

theorem removeFile (host : Host) (file : Bytes) :
    Shrinks host (host.removeFile file) (fun _ => False) (· = file) where
  entries entry := by simp
  removedFiles other same := if_pos same
  keptFiles other differs := if_neg differs

theorem killProcess (host : Host) (pid : Nat) (signal : Signal) :
    Shrinks host (host.killProcess pid signal) (fun _ => False) fun _ => False where
  entries entry := by simp
  removedFiles file isRemoved := isRemoved.elim
  keptFiles file _ := rfl

theorem cleanupPidfile (paths : Paths) (host : Host) (pid : Nat) :
    Shrinks host (host.cleanupPidfile paths pid) (fun _ => False)
      (CleanupFile paths host pid) := by
  rw [Host.cleanupPidfile]
  cases found : (host.table.lookup pid).bind ProcessEntry.serve with
  | none =>
      apply (refl host).congr fun _ => Iff.rfl
      intro file
      apply iff_of_false id
      rintro ⟨serve, isServe, -⟩
      rw [found] at isServe
      cases isServe
  | some serve =>
      dsimp only
      split
      next empty =>
        apply (refl host).congr fun _ => Iff.rfl
        intro file
        apply iff_of_false id
        rintro ⟨other, isServe, nonempty, -⟩
        rw [found] at isServe
        cases isServe
        exact nonempty empty
      next nonempty =>
        apply (removeFile host _).congr fun _ => Iff.rfl
        intro file
        constructor
        · exact fun same => ⟨serve, found, nonempty, same⟩
        · rintro ⟨other, isServe, -, same⟩
          rw [found] at isServe
          cases isServe
          exact same

theorem removeProcess (host : Host) (pid : Nat) :
    Shrinks host { host with table := host.table.remove pid } (· = pid) fun _ => False where
  entries _ := ProcessTable.mem_remove
  removedFiles _ isRemoved := isRemoved.elim
  keptFiles _ _ := rfl

theorem finish (paths : Paths) (host : Host) (cleanup : Bool) (pid : Nat) :
    Shrinks host (host.finish paths cleanup pid) (· = pid)
      fun file => cleanup = true ∧ CleanupFile paths host pid file := by
  cases cleanup with
  | false =>
      apply (removeProcess host pid).congr fun _ => Iff.rfl
      intro file
      simp
  | true =>
      apply ((cleanupPidfile paths host pid).trans (removeProcess _ pid)).congr
      · intro other
        exact or_iff_right id
      · intro file
        simp

theorem runs_iff (shrinks : Shrinks host next gone removed) {pid : Nat} :
    Runs next pid name ↔ Runs host pid name ∧ ¬gone pid := by
  constructor
  · rintro ⟨entry, isEntry, rfl, started⟩
    rw [shrinks.entries] at isEntry
    exact ⟨⟨entry, isEntry.1, rfl, started⟩, isEntry.2⟩
  · rintro ⟨⟨entry, isEntry, rfl, started⟩, stays⟩
    exact ⟨entry, (shrinks.entries entry).mpr ⟨isEntry, stays⟩, rfl, started⟩

theorem processIsAlive_iff (shrinks : Shrinks host next gone removed) {pid : Nat}
    (positive : 0 < pid) :
    next.processIsAlive pid = true ↔ host.processIsAlive pid = true ∧ ¬gone pid := by
  rw [processIsAlive_iff_of_pos positive, processIsAlive_iff_of_pos positive]
  constructor
  · rintro ⟨entry, isEntry, rfl, signalable⟩
    rw [shrinks.entries] at isEntry
    exact ⟨⟨entry, isEntry.1, rfl, signalable⟩, isEntry.2⟩
  · rintro ⟨⟨entry, isEntry, rfl, signalable⟩, stays⟩
    exact ⟨entry, (shrinks.entries entry).mpr ⟨isEntry, stays⟩, rfl, signalable⟩

/-- What a name resolves to afterwards. -/
theorem resolves_iff (shrinks : Shrinks host next gone removed) {pid : Nat} :
    Resolves paths next name pid ↔
      Resolves paths host name pid ∧ ¬removed (nameFile paths name) ∧ ¬gone pid := by
  by_cases isRemoved : removed (nameFile paths name)
  · have noHolder : holder paths next name = none := by
      rw [holder, shrinks.removedFiles _ isRemoved, Option.bind_none]
    apply iff_of_false
    · rintro ⟨holds, -⟩
      rw [noHolder] at holds
      cases holds
    · exact fun stays => stays.2.1 isRemoved
  · have sameHolder : holder paths next name = holder paths host name := by
      rw [holder, shrinks.keptFiles _ isRemoved, holder]
    rw [Resolves, Resolves, sameHolder]
    constructor
    · rintro ⟨holds, alive⟩
      rw [shrinks.processIsAlive_iff (holder_pos holds)] at alive
      exact ⟨⟨holds, alive.1⟩, isRemoved, alive.2⟩
    · rintro ⟨⟨holds, alive⟩, -, stays⟩
      exact ⟨holds, (shrinks.processIsAlive_iff (holder_pos holds)).mpr ⟨alive, stays⟩⟩

/-- A name stays resolvable exactly if its last instance goes together with its file. -/
theorem resolvable_iff (shrinks : Shrinks host next gone removed)
    (before : Resolvable paths host name) :
    Resolvable paths next name ↔
      ((removed (nameFile paths name) ∨ ∃ pid, gone pid ∧ holder paths host name = some pid) →
        ∀ other, ¬gone other → ¬Runs host other name) := by
  rw [Cli.resolvable_iff] at before ⊢
  simp only [shrinks.resolves_iff, shrinks.runs_iff]
  constructor
  · rintro ⟨-, complete⟩ lost other stays runs
    rcases complete other ⟨runs, stays⟩ with ⟨found, ⟨holds, -⟩, isKept, foundStays⟩
    rcases lost with isRemoved | ⟨pid, isGone, holdsGone⟩
    · exact isKept isRemoved
    · rw [holds, Option.some.injEq] at holdsGone
      exact foundStays (holdsGone ▸ isGone)
  · intro keeps
    constructor
    · rintro pid ⟨resolves, -, stays⟩
      exact ⟨before.1 pid resolves, stays⟩
    · rintro pid ⟨runs, stays⟩
      rcases before.2 pid runs with ⟨found, resolves⟩
      refine ⟨found, resolves, fun isRemoved => ?_, fun isGone => ?_⟩
      · exact keeps (Or.inl isRemoved) pid stays runs
      · exact keeps (Or.inr ⟨found, isGone, resolves.1⟩) pid stays runs

theorem removePidfiles (paths : Paths) (directory : Bytes) (host : Host) (pid : Nat) :
    Shrinks host (removePidfiles paths directory pid host) (fun _ => False)
      (FlagFile paths directory (host.getProcessCmdline pid)) := by
  have removeIf : ∀ (host : Host) (empty : Prop) [Decidable empty] (file : Bytes),
      Shrinks host (if empty then host else host.removeFile file) (fun _ => False)
        fun other => ¬empty ∧ other = file := by
    intro host empty _ file
    split
    next isEmpty => exact (refl host).congr (fun _ => Iff.rfl) (by simp [isEmpty])
    next nonempty => exact (removeFile host file).congr (fun _ => Iff.rfl) (by simp [nonempty])
  rw [Cli.removePidfiles]
  apply ((removeIf host _ _).trans (removeIf _ _ _)).congr
  · simp
  · exact fun file => Iff.rfl

/-- What a stop does to a live process: its files are removed, and it goes if it ends. -/
theorem stopProcess (paths : Paths) (directory : Bytes) (host : Host) (fate : Fate) {pid : Nat}
    (positive : 0 < pid) (alive : host.processIsAlive pid = true) :
    Shrinks host (stopProcess paths directory fate pid host)
      (fun other => fate.Ends ∧ other = pid)
      fun file => FlagFile paths directory (host.getProcessCmdline pid) file ∨
        fate.afterTerm = some true ∧ CleanupFile paths host pid file := by
  rcases fate with ⟨afterTerm, afterKill⟩
  have signalled : Shrinks host
      ((Cli.removePidfiles paths directory pid host).killProcess pid .term) (fun _ => False)
      (FlagFile paths directory (host.getProcessCmdline pid)) :=
    ((removePidfiles paths directory host pid).trans (killProcess _ pid .term)).congr
      (by simp) (by simp)
  have sameTable : ((Cli.removePidfiles paths directory pid host).killProcess pid .term).table =
      host.table := by
    rw [Host.killProcess_table, removePidfiles_table]
  rw [Cli.stopProcess]
  generalize (Cli.removePidfiles paths directory pid host).killProcess pid .term = middle
    at signalled sameTable ⊢
  have sameCleanup : ∀ file,
      CleanupFile paths middle pid file ↔ CleanupFile paths host pid file := by
    intro file
    rw [CleanupFile, CleanupFile, sameTable]
  cases afterTerm with
  | some cleanup =>
      have ended := finish paths middle cleanup pid
      have dead : ¬(middle.finish paths cleanup pid).processIsAlive pid = true := by
        rw [ended.processIsAlive_iff positive]
        exact fun both => both.2 rfl
      dsimp only
      rw [if_neg dead]
      apply (signalled.trans ended).congr
      · simp [Fate.Ends]
      · intro file
        rw [sameCleanup, Option.some.injEq]
  | none =>
      have stillAlive : middle.processIsAlive pid = true := by
        rw [Host.processIsAlive, sameTable]
        exact alive
      have killed := signalled.trans (killProcess middle pid .kill)
      dsimp only
      rw [if_pos stillAlive]
      cases afterKill with
      | true =>
          apply (killed.trans (finish paths _ false pid)).congr
          · simp [Fate.Ends]
          · simp
      | false =>
          apply killed.congr
          · simp [Fate.Ends]
          · simp

end Shrinks

/-! ## Processes that come -/

section Grows

variable {paths : Paths} {host next : Host} {name : Bytes} {entry : ProcessEntry}

/-- The process of an entry was started with a name. -/
def Named (entry : ProcessEntry) (name : Bytes) : Prop :=
  ∃ serve, entry.serve = some serve ∧ serve.name = name

/-- One process comes, with a pid that was free. -/
structure Grows (host next : Host) (entry : ProcessEntry) : Prop where
  positive : 0 < entry.pid
  fresh : ∀ other ∈ host.table.entries, other.pid ≠ entry.pid
  entries : ∀ other, other ∈ next.table.entries ↔ other = entry ∨ other ∈ host.table.entries

namespace Grows

theorem of_add (positive : 0 < entry.pid)
    (fresh : entry.pid ∉ host.table.entries.map ProcessEntry.pid)
    (added : next.table = host.table.add entry positive fresh) : Grows host next entry where
  positive := positive
  fresh other isOther same := fresh (List.mem_map.mpr ⟨other, isOther, same⟩)
  entries other := by
    rw [added]
    exact List.mem_cons

theorem runs_iff (grows : Grows host next entry) {pid : Nat} :
    Runs next pid name ↔ (pid = entry.pid ∧ Named entry name) ∨ Runs host pid name := by
  constructor
  · rintro ⟨other, isOther, rfl, started⟩
    rcases (grows.entries other).mp isOther with rfl | isOld
    · exact Or.inl ⟨rfl, started⟩
    · exact Or.inr ⟨other, isOld, rfl, started⟩
  · rintro (⟨rfl, started⟩ | ⟨other, isOld, rfl, started⟩)
    · exact ⟨entry, (grows.entries entry).mpr (Or.inl rfl), rfl, started⟩
    · exact ⟨other, (grows.entries other).mpr (Or.inr isOld), rfl, started⟩

theorem not_runs (grows : Grows host next entry) : ¬Runs host entry.pid name := by
  rintro ⟨other, isOld, same, -⟩
  exact grows.fresh other isOld same

theorem processIsAlive_iff (grows : Grows host next entry) {pid : Nat} (positive : 0 < pid) :
    next.processIsAlive pid = true ↔
      (pid = entry.pid ∧ entry.signalable = true) ∨ host.processIsAlive pid = true := by
  rw [processIsAlive_iff_of_pos positive, processIsAlive_iff_of_pos positive]
  constructor
  · rintro ⟨other, isOther, rfl, signalable⟩
    rcases (grows.entries other).mp isOther with rfl | isOld
    · exact Or.inl ⟨rfl, signalable⟩
    · exact Or.inr ⟨other, isOld, rfl, signalable⟩
  · rintro (⟨rfl, signalable⟩ | ⟨other, isOld, rfl, signalable⟩)
    · exact ⟨entry, (grows.entries entry).mpr (Or.inl rfl), rfl, signalable⟩
    · exact ⟨other, (grows.entries other).mpr (Or.inr isOld), rfl, signalable⟩

/-- A name whose file holds the pid of the new process resolves to it. -/
theorem resolvable_iff_of_claimed (grows : Grows host next entry)
    (signalable : entry.signalable = true) (claimed : holder paths next name = some entry.pid) :
    Resolvable paths next name ↔ Named entry name := by
  have resolves : ∀ pid, Resolves paths next name pid ↔ pid = entry.pid := by
    intro pid
    constructor
    · rintro ⟨holds, -⟩
      rw [claimed] at holds
      exact (Option.some.inj holds).symm
    · rintro rfl
      exact ⟨claimed, (grows.processIsAlive_iff grows.positive).mpr (Or.inl ⟨rfl, signalable⟩)⟩
  rw [resolvable_iff]
  simp only [resolves, grows.runs_iff]
  constructor
  · intro resolvable
    rcases resolvable.1 entry.pid rfl with ⟨-, named⟩ | runs
    · exact named
    · exact absurd runs grows.not_runs
  · intro named
    constructor
    · rintro pid rfl
      exact Or.inl ⟨rfl, named⟩
    · exact fun pid _ => ⟨entry.pid, rfl⟩

/-- A name whose file is as it was resolves as it did, unless its pid has become that of the
new process. -/
theorem resolvable_iff_of_unclaimed (grows : Grows host next entry)
    (before : Resolvable paths host name) (same : holder paths next name = holder paths host name)
    (unclaimed : entry.signalable = true → holder paths host name ≠ some entry.pid) :
    Resolvable paths next name ↔ (Named entry name → ∃ pid, Runs host pid name) := by
  have resolves : ∀ pid, Resolves paths next name pid ↔ Resolves paths host name pid := by
    intro pid
    rw [Resolves, Resolves, same]
    apply and_congr_right
    intro holds
    rw [grows.processIsAlive_iff (holder_pos holds)]
    apply or_iff_right
    rintro ⟨rfl, signalable⟩
    exact unclaimed signalable holds
  rw [resolvable_iff] at before ⊢
  simp only [resolves, grows.runs_iff]
  constructor
  · intro resolvable named
    rcases resolvable.2 entry.pid (Or.inl ⟨rfl, named⟩) with ⟨found, resolvesTo⟩
    exact ⟨found, before.1 found resolvesTo⟩
  · intro found
    constructor
    · exact fun pid resolvesTo => Or.inr (before.1 pid resolvesTo)
    · rintro pid (⟨-, named⟩ | runs)
      · rcases found named with ⟨other, runs⟩
        exact before.2 other runs
      · exact before.2 pid runs

end Grows

end Grows

/-! ## Steps -/

section Steps

variable {paths : Paths} {host next : Host}

/-- All names resolve. -/
def NamesResolvable (paths : Paths) (host : Host) : Prop :=
  ∀ name, name ≠ [] → Resolvable paths host name

theorem Unused.namesResolvable (unused : Unused paths host) : NamesResolvable paths host := by
  intro name named
  rw [resolvable_iff]
  constructor
  · rintro pid ⟨holds, -⟩
    rw [holder, unused.files name named] at holds
    cases holds
  · rintro pid ⟨entry, isEntry, -, serve, isServe, -⟩
    rw [unused.processes entry isEntry] at isServe
    cases isServe

theorem Shrinks.namesResolvable_iff {gone : Nat → Prop} {removed : Bytes → Prop}
    (shrinks : Shrinks host next gone removed) (before : NamesResolvable paths host) :
    NamesResolvable paths next ↔ Keeps paths host gone removed :=
  forall_congr' fun name => forall_congr' fun named => shrinks.resolvable_iff (before name named)

theorem Launch.named_iff {launch : Launch} {name : Bytes} :
    Named launch.entry name ↔ launch.serveName = name := by
  constructor
  · rintro ⟨serve, isServe, rfl⟩
    cases isServe
    rfl
  · exact fun same => ⟨_, rfl, same⟩

theorem start_iff {launch : Launch} (before : NamesResolvable paths host)
    (grows : Grows host next launch.entry)
    (claimed : ∀ name, launch.Claims paths host name → holder paths next name = some launch.pid)
    (unclaimed : ∀ name, ¬launch.Claims paths host name →
      holder paths next name = holder paths host name) :
    NamesResolvable paths next ↔ Fits paths host (.start launch) := by
  have each : ∀ name, name ≠ [] → (Resolvable paths next name ↔
      (launch.Claims paths host name → launch.serveName = name) ∧
        (launch.serveName = name →
          launch.Claims paths host name ∨ ∃ pid, Runs host pid name)) := by
    intro name named
    by_cases claims : launch.Claims paths host name
    · rw [grows.resolvable_iff_of_claimed rfl (claimed name claims), Launch.named_iff]
      constructor
      · exact fun same => ⟨fun _ => same, fun _ => Or.inl claims⟩
      · exact fun fits => fits.1 claims
    · rw [grows.resolvable_iff_of_unclaimed (before name named) (unclaimed name claims)
        fun _ holds => claims (Or.inr holds), Launch.named_iff]
      constructor
      · intro found
        exact ⟨fun isClaimed => absurd isClaimed claims, fun same => Or.inr (found same)⟩
      · exact fun fits same => (fits.2 same).resolve_left claims
  rw [Fits]
  constructor
  · intro resolvable
    constructor
    · exact fun name named => ((each name named).mp (resolvable name named)).1
    · exact fun named => ((each _ named).mp (resolvable _ named)).2 rfl
  · rintro ⟨only, found⟩ name named
    apply (each name named).mpr
    constructor
    · exact only name named
    · rintro rfl
      exact found named

theorem cmdServe_iff {launch : Launch} (before : NamesResolvable paths host)
    (fits : launch.pid ≤ Decimal.intMax) (taken : cmdServe paths launch host = some next) :
    NamesResolvable paths next ↔ Fits paths host (.start launch) := by
  rw [cmdServe] at taken
  split at taken
  next free =>
    cases taken
    have grows : ∀ {other : Host}, other.table = host.table.add launch.entry free.1 free.2 →
        Grows host other launch.entry := fun added => .of_add free.1 free.2 added
    by_cases writes : launch.writes = true
    · have holder_eq : ∀ name, holder paths (Host.writeFile
          { host with table := host.table.add launch.entry free.1 free.2 }
          (launch.file paths) (pidLine launch.pid)) name =
            if nameFile paths name = launch.file paths then some launch.pid
            else holder paths host name := by
        intro name
        rw [holder, Host.writeFile]
        dsimp only
        split
        · rw [Option.bind_some, pidLine]
          exact Decimal.extractPositive_toString free.1 fits
        · rfl
      rw [if_pos writes]
      apply start_iff before (grows rfl)
      · rintro name claims
        rw [holder_eq]
        split
        · rfl
        next differs => exact claims.resolve_left fun written => differs written.2.symm
      · rintro name notClaims
        rw [holder_eq]
        exact if_neg fun same => notClaims (Or.inl ⟨writes, same.symm⟩)
    · rw [if_neg writes]
      apply start_iff before (grows rfl)
      · exact fun name claims => claims.resolve_left fun written => writes written.1
      · exact fun name _ => rfl
  next => cases taken

theorem occupy_iff {entry : ProcessEntry} (before : NamesResolvable paths host)
    (grows : Grows host next entry) (files : next.files = host.files)
    (unnamed : entry.serve = none) :
    NamesResolvable paths next ↔ Fits paths host (.occupy entry) := by
  have notNamed : ∀ name, ¬Named entry name := by
    rintro name ⟨serve, isServe, -⟩
    rw [unnamed] at isServe
    cases isServe
  have sameHolder : ∀ name, holder paths next name = holder paths host name := by
    intro name
    rw [holder, files, holder]
  have each : ∀ name, name ≠ [] → (Resolvable paths next name ↔
      (entry.signalable = true → holder paths host name ≠ some entry.pid)) := by
    intro name named
    by_cases claimed : entry.signalable = true ∧ holder paths host name = some entry.pid
    · rw [grows.resolvable_iff_of_claimed claimed.1 ((sameHolder name).trans claimed.2)]
      exact iff_of_false (notNamed name) fun unclaimed => unclaimed claimed.1 claimed.2
    · rw [not_and] at claimed
      rw [grows.resolvable_iff_of_unclaimed (before name named) (sameHolder name) claimed]
      exact iff_of_true (fun isNamed => absurd isNamed (notNamed name)) claimed
  rw [Fits]
  constructor
  · intro resolvable signalable name named
    exact (each name named).mp (resolvable name named) signalable
  · intro unclaimed name named
    exact (each name named).mpr fun signalable => unclaimed signalable name named

theorem stop_iff {directory name : Bytes} {fate : Fate} (before : NamesResolvable paths host)
    (isName : IsName name) :
    NamesResolvable paths (cmdServeStop paths directory (fun _ => fate) name host).2 ↔
      Fits paths host (.stop directory name fate) := by
  have digits : ¬name.all Decimal.isDigit = true := by
    rw [isName.2.2]
    exact Bool.false_ne_true
  rw [cmdServeStop, if_neg isName.1, if_neg isName.2.1, if_neg digits, resolveServeName_eq, Fits]
  cases holds : holder paths host name with
  | none =>
      apply iff_of_true before
      rintro pid ⟨alsoHolds, -⟩
      rw [holds] at alsoHolds
      cases alsoHolds
  | some pid =>
      have only : ∀ other, Resolves paths host name other → other = pid := by
        rintro other ⟨alsoHolds, -⟩
        rw [holds] at alsoHolds
        exact (Option.some.inj alsoHolds).symm
      dsimp only
      by_cases alive : host.processIsAlive pid = true
      · rw [if_pos alive]
        have shrinks := Shrinks.stopProcess paths directory host fate (holder_pos holds) alive
        apply (shrinks.namesResolvable_iff before).trans
        constructor
        · intro keeps other resolves
          rwa [only other resolves]
        · exact fun keeps => keeps pid ⟨holds, alive⟩
      · rw [if_neg alive]
        have notResolves : ∀ other, ¬Resolves paths host name other := by
          intro other resolves
          apply alive
          rw [← only other resolves]
          exact resolves.2
        apply iff_of_true
        · apply ((Shrinks.removeFile host _).namesResolvable_iff before).mpr
          rintro other named (sameFile | ⟨_, isGone, _⟩) runner - runs
          · rcases (resolvable_iff.mp (before other named)).2 runner runs with
              ⟨found, foundHolds, foundAlive⟩
            apply notResolves found
            rw [holder, sameFile] at foundHolds
            exact ⟨foundHolds, foundAlive⟩
          · exact isGone
        · exact fun other resolves => absurd resolves (notResolves other)

/-- What a step needs to leave all names resolvable. -/
theorem step_iff {action : ServeAction} (before : NamesResolvable paths host)
    (taken : action.step paths host = some next) :
    NamesResolvable paths next ↔ Fits paths host action := by
  cases action with
  | start launch =>
      rw [ServeAction.step] at taken
      split at taken
      next fits => exact cmdServe_iff before fits taken
      next => cases taken
  | exit pid =>
      rw [ServeAction.step] at taken
      split at taken
      · cases taken
        have shrinks := (Shrinks.finish paths host true pid).congr (fun _ => Iff.rfl)
          (fun file => and_iff_right rfl)
        exact shrinks.namesResolvable_iff before
      · cases taken
  | crash pid =>
      rw [ServeAction.step] at taken
      split at taken
      · cases taken
        have shrinks := (Shrinks.finish paths host false pid).congr (fun _ => Iff.rfl)
          (fun file => iff_of_false (fun removed => Bool.false_ne_true removed.1) id)
        exact shrinks.namesResolvable_iff before
      · cases taken
  | occupy entry =>
      rw [ServeAction.step] at taken
      split at taken
      next free =>
        split at taken
        next unnamed =>
          cases taken
          exact occupy_iff before (.of_add free.1 free.2 rfl) rfl unnamed
        next => cases taken
      next => cases taken
  | stop directory name fate =>
      rw [ServeAction.step] at taken
      split at taken
      next isName =>
        cases taken
        exact stop_iff before isName
      next => cases taken

end Steps

/-! ## Runs -/

/-- In every run, names stay resolvable as long as every step meets the condition. -/
theorem namesResolvable_iff_along (paths : Paths) (start : Host) (unused : Unused paths start)
    (actions : List ServeAction) :
    (∀ past host, past <+: actions → (serves paths).run start past = some host →
        NamesResolvable paths host) ↔
      (serves paths).Along (Fits paths) start actions := by
  apply Machine.safe_iff_along
  · intro host action next before taken
    exact step_iff before taken
  · exact unused.namesResolvable

/-- An instance that writes the pidfile of its name. -/
def namedLaunch (pid : Nat) : Launch :=
  ⟨pid, bytes "cllama", [bytes "cllama", bytes "serve", bytes "start"], [], bytes "a", [], false,
    true⟩

/-- Some other process. -/
def stranger (pid : Nat) : ProcessEntry :=
  ⟨pid, bytes "sh", [bytes "sh"], false, true, none⟩

theorem emptyHost_unused : Unused plainPaths emptyHost where
  processes := List.forall_mem_nil _
  files _ _ := rfl

theorem namesResolvable_iff_along_exit :
    (∀ past host, past <+: [.start (namedLaunch 5), .exit 5] →
        (serves plainPaths).run emptyHost past = some host → NamesResolvable plainPaths host) ↔
      (serves plainPaths).Along (Fits plainPaths) emptyHost [.start (namedLaunch 5), .exit 5] :=
  namesResolvable_iff_along plainPaths emptyHost emptyHost_unused
    [.start (namedLaunch 5), .exit 5]

/-- An instance crashes, and its pid, which its file still holds, becomes that of another
process. -/
theorem not_namesResolvable_of_reuse :
    ∃ host, (serves plainPaths).run emptyHost
        [.start (namedLaunch 5), .crash 5, .occupy (stranger 5)] = some host ∧
      ¬NamesResolvable plainPaths host := by
  refine ⟨_, rfl, fun resolvable => ?_⟩
  rcases (resolvable (bytes "a") (by decide)).sound [] 5 (by decide) with
    ⟨entry, isEntry, -, serve, isServe, -⟩
  rw [List.mem_singleton.mp isEntry] at isServe
  cases isServe

end Cllama.Cli
