import Cllama.Cli.Commands
import Cllama.Cli.ServeNames

/-!
# The pidfile of an instance that is stopped

A pidfile is there to tell that its instance is running.  `stop_process` removes files before
it sends a signal: those whose names it finds in the command line, behind the first `--pidfile`
and the first `--name` with a space after it.  The instance removes its own pidfile if it exits
with its exit handlers.
-/

namespace Cllama.Cli

open Cllama.Library Cllama.Platform Cllama.Util

/-! ## Words behind a flag -/

/-- The first occurrence of a flag in a command line is followed by a word. -/
def Follows (flag value cmdline : Bytes) : Prop :=
  ∃ front rest, cmdline = front ++ (flag ++ (value ++ rest)) ∧
    (∀ pos < front.length, ¬flag <+: cmdline.drop pos) ∧
    0x20 ∉ value ∧ (rest = [] ∨ rest.head? = some 0x20)

theorem word_append {value rest : Bytes} (noSpace : 0x20 ∉ value)
    (ends : rest = [] ∨ rest.head? = some 0x20) : word (value ++ rest) = value := by
  rcases ends with rfl | isSpace
  · rw [List.append_nil]
    exact takeWhile_ne_eq_self noSpace
  · rcases List.head?_eq_some_iff.mp isSpace with ⟨others, rfl⟩
    exact takeWhile_ne_append noSpace others

theorem word_cut (text : Bytes) :
    0x20 ∉ word text ∧ ∃ rest, text = word text ++ rest ∧ (rest = [] ∨ rest.head? = some 0x20) := by
  constructor
  · intro isMember
    have differs := List.mem_takeWhile_imp isMember
    simp at differs
  · refine ⟨text.dropWhile (· ≠ 0x20), List.takeWhile_append_dropWhile.symm, ?_⟩
    have stops := List.head?_dropWhile_not (· ≠ (0x20 : UInt8)) text
    cases behind : text.dropWhile (· ≠ 0x20) with
    | nil => exact Or.inl rfl
    | cons c others =>
        rw [behind] at stops
        exact Or.inr (congrArg some (by simpa using stops))

/-- What `stop_process` takes for the value of a flag. -/
theorem flagValue_eq_iff {flag : String} {value cmdline : Bytes} (nonempty : value ≠ []) :
    flagValue flag cmdline = value ↔ Follows (bytes flag) value cmdline := by
  constructor
  · rintro rfl
    rw [flagValue] at nonempty ⊢
    cases found : find (bytes flag) cmdline with
    | none =>
        rw [found] at nonempty
        exact absurd rfl nonempty
    | some pos =>
        rcases find_eq_some_iff.mp found with ⟨inside, ⟨behind, isBehind⟩, first⟩
        rcases word_cut behind with ⟨noSpace, rest, cut, ends⟩
        have dropped : cmdline.drop (pos + (bytes flag).length) = behind := by
          rw [← List.drop_drop, ← isBehind, List.drop_left]
        dsimp only
        rw [dropped]
        refine ⟨cmdline.take pos, rest, ?_, ?_, noSpace, ends⟩
        · rw [← cut, isBehind, List.take_append_drop]
        · rwa [List.length_take_of_le inside]
  · rintro ⟨front, rest, cut, first, noSpace, ends⟩
    have found : find (bytes flag) cmdline = some front.length := by
      rw [find_eq_some_iff]
      refine ⟨by simp [cut], ?_, first⟩
      rw [cut, List.drop_left]
      exact List.prefix_append _ _
    rw [flagValue, found]
    dsimp only
    rw [cut, ← List.drop_drop, List.drop_left, List.drop_left, word_append noSpace ends]

/-! ## Files and instances -/

section Files

variable (paths : Paths)

/-- A command line names a file by a flag, or the file of a name. -/
def NamedByFlag (directory cmdline file : Bytes) : Prop :=
  ∃ value, value ≠ [] ∧
    (Follows (bytes "--pidfile ") value cmdline ∧ file = paths.locate directory value ∨
      Follows (bytes "--name ") value cmdline ∧
        file = paths.locate directory (namePidfile value))

/-- The pidfile of an instance. -/
def PidfileOf (entry : ProcessEntry) (file : Bytes) : Prop :=
  ∃ serve, entry.serve = some serve ∧ serve.pidfile ≠ [] ∧
    file = paths.locate serve.directory serve.pidfile

/-- Afterwards, the pidfile of an instance is there exactly if its process is, and the
pidfiles of the other instances are still there. -/
structure PidfileTells (host next : Host) (entry : ProcessEntry) (file : Bytes) : Prop where
  own : next.files file ≠ none ↔ next.processIsAlive entry.pid = true
  others : ∀ other ∈ host.table.entries, other.pid ≠ entry.pid →
    ∀ otherFile, PidfileOf paths other otherFile →
      host.files otherFile ≠ none → next.files otherFile ≠ none

/-- The condition on a stop: a process that ends removes its pidfile itself, or its command
line names the file, unless it is gone already; a process that does not end has a pidfile
that its command line does not name; and neither removes the pidfile of another instance. -/
structure StopFits (directory : Bytes) (host : Host) (fate : Fate) (entry : ProcessEntry)
    (file : Bytes) : Prop where
  ended : fate.Ends → host.files file = none ∨ fate.afterTerm = some true ∨
    NamedByFlag paths directory (host.getProcessCmdline entry.pid) file
  stays : ¬fate.Ends → host.files file ≠ none ∧
    ¬NamedByFlag paths directory (host.getProcessCmdline entry.pid) file
  others : ∀ other ∈ host.table.entries, other.pid ≠ entry.pid →
    ∀ otherFile, PidfileOf paths other otherFile → host.files otherFile ≠ none →
      ¬NamedByFlag paths directory (host.getProcessCmdline entry.pid) otherFile ∧
        (fate.afterTerm = some true → otherFile ≠ file)

end Files

section Stop

variable {paths : Paths} {directory cmdline file : Bytes} {host next : Host}
  {entry : ProcessEntry}

theorem flagFile_iff :
    FlagFile paths directory cmdline file ↔ NamedByFlag paths directory cmdline file := by
  constructor
  · rintro (⟨nonempty, same⟩ | ⟨nonempty, same⟩)
    · exact ⟨_, nonempty, Or.inl ⟨(flagValue_eq_iff nonempty).mp rfl, same⟩⟩
    · exact ⟨_, nonempty, Or.inr ⟨(flagValue_eq_iff nonempty).mp rfl, same⟩⟩
  · rintro ⟨value, nonempty, ⟨follows, same⟩ | ⟨follows, same⟩⟩
    · have isValue := (flagValue_eq_iff nonempty).mpr follows
      exact Or.inl ⟨isValue ▸ nonempty, isValue ▸ same⟩
    · have isValue := (flagValue_eq_iff nonempty).mpr follows
      exact Or.inr ⟨isValue ▸ nonempty, isValue ▸ same⟩

theorem cleanupFile_iff (isEntry : entry ∈ host.table.entries) :
    CleanupFile paths host entry.pid file ↔ PidfileOf paths entry file := by
  rw [CleanupFile, ProcessTable.lookup_eq_some_iff.mpr ⟨isEntry, rfl⟩]
  rfl

theorem PidfileOf.unique {other : Bytes} (isFile : PidfileOf paths entry file)
    (isOther : PidfileOf paths entry other) : other = file := by
  rcases isFile with ⟨serve, isServe, -, rfl⟩
  rcases isOther with ⟨serve', isServe', -, rfl⟩
  cases isServe.symm.trans isServe'
  rfl

/-- A file is there afterwards if it was and is not removed. -/
theorem Shrinks.exists_iff {gone : Nat → Prop} {removed : Bytes → Prop}
    (shrinks : Shrinks host next gone removed) :
    next.files file ≠ none ↔ host.files file ≠ none ∧ ¬removed file := by
  by_cases isRemoved : removed file
  · simp [shrinks.removedFiles file isRemoved, isRemoved]
  · simp [shrinks.keptFiles file isRemoved, isRemoved]

theorem ends_of_cleanup {fate : Fate} (cleanup : fate.afterTerm = some true) : fate.Ends := by
  left
  rw [cleanup]
  rfl

/-- What a stop removes: the files that the command line names, and the pidfile if the process
runs its exit handlers. -/
def Removes (paths : Paths) (directory : Bytes) (host : Host) (fate : Fate) (entry : ProcessEntry)
    (file : Bytes) : Prop :=
  NamedByFlag paths directory (host.getProcessCmdline entry.pid) file ∨
    fate.afterTerm = some true ∧ PidfileOf paths entry file

theorem stopProcess_removes (fate : Fate) (isEntry : entry ∈ host.table.entries)
    (alive : host.processIsAlive entry.pid = true) :
    Shrinks host (stopProcess paths directory fate entry.pid host)
      (fun pid => fate.Ends ∧ pid = entry.pid) (Removes paths directory host fate entry) :=
  (Shrinks.stopProcess paths directory host fate (host.table.positive entry isEntry) alive).congr
    (fun _ => Iff.rfl)
    fun _ => or_congr flagFile_iff (and_congr_right fun _ => cleanupFile_iff isEntry)

variable {fate : Fate}

/-- The pidfile itself. -/
theorem own_iff (isFile : PidfileOf paths entry file) :
    ((host.files file ≠ none ∧ ¬Removes paths directory host fate entry file) ↔ ¬fate.Ends) ↔
      (fate.Ends → host.files file = none ∨ fate.afterTerm = some true ∨
        NamedByFlag paths directory (host.getProcessCmdline entry.pid) file) ∧
      (¬fate.Ends → host.files file ≠ none ∧
        ¬NamedByFlag paths directory (host.getProcessCmdline entry.pid) file) := by
  have removes : Removes paths directory host fate entry file ↔
      NamedByFlag paths directory (host.getProcessCmdline entry.pid) file ∨
        fate.afterTerm = some true :=
    or_congr_right (and_iff_left isFile)
  rw [removes]
  by_cases ends : fate.Ends
  · simp only [ends, not_true_eq_false, iff_false, not_and, not_not, forall_const,
      IsEmpty.forall_iff, and_true, ne_eq]
    rw [or_comm (a := fate.afterTerm = some true), ← or_iff_not_imp_left]
  · have noCleanup : fate.afterTerm ≠ some true := fun cleanup => ends (ends_of_cleanup cleanup)
    simp only [ends, noCleanup, not_false_eq_true, iff_true, or_false, IsEmpty.forall_iff,
      forall_const, true_and]

/-- The pidfile of another instance. -/
theorem other_iff (isFile : PidfileOf paths entry file) {otherFile : Bytes} :
    ¬Removes paths directory host fate entry otherFile ↔
      ¬NamedByFlag paths directory (host.getProcessCmdline entry.pid) otherFile ∧
        (fate.afterTerm = some true → otherFile ≠ file) := by
  have same : PidfileOf paths entry otherFile ↔ otherFile = file := by
    constructor
    · exact isFile.unique
    · rintro rfl
      exact isFile
  rw [Removes, same, not_or, not_and]

/-- For every instance that can be signalled and every fate of it: a stop leaves the pidfiles
telling which instances are running exactly under the condition above. -/
theorem pidfileTells_iff (paths : Paths) (directory : Bytes) (host : Host) (fate : Fate)
    (entry : ProcessEntry) (isEntry : entry ∈ host.table.entries)
    (signalable : entry.signalable = true) (file : Bytes) (isFile : PidfileOf paths entry file) :
    PidfileTells paths host (stopProcess paths directory fate entry.pid host) entry file ↔
      StopFits paths directory host fate entry file := by
  have positive := host.table.positive entry isEntry
  have alive : host.processIsAlive entry.pid = true :=
    (processIsAlive_iff_of_pos positive).mpr ⟨entry, isEntry, rfl, signalable⟩
  have shrinks := @stopProcess_removes paths directory host entry fate isEntry alive
  have isAlive : (stopProcess paths directory fate entry.pid host).processIsAlive entry.pid = true ↔
      ¬fate.Ends := by
    rw [shrinks.processIsAlive_iff positive]
    simp [alive]
  constructor
  · rintro ⟨own, others⟩
    rw [shrinks.exists_iff, isAlive, own_iff isFile] at own
    refine ⟨own.1, own.2, fun other isOther differs otherFile isOtherFile present => ?_⟩
    have kept := others other isOther differs otherFile isOtherFile present
    exact (other_iff isFile).mp (shrinks.exists_iff.mp kept).2
  · rintro ⟨ended, stays, others⟩
    constructor
    · rw [shrinks.exists_iff, isAlive, own_iff isFile]
      exact ⟨ended, stays⟩
    · intro other isOther differs otherFile isOtherFile present
      have kept := others other isOther differs otherFile isOtherFile present
      exact shrinks.exists_iff.mpr ⟨present, (other_iff isFile).mpr kept⟩

end Stop

/-! ## Two instances -/

/-- An instance with the name "x", under some spelling. -/
def xLaunch (spelling : List String) : Launch where
  pid := 9
  comm := bytes "cllama"
  argv := (["cllama", "serve", "start", "--models-folder", "/m"] ++ spelling).map bytes
  directory := []
  serveName := bytes "x"
  pidfile := []
  daemonFlag := false
  writable := true

/-- The host once the instance has written its pidfile. -/
def xHost (spelling : List String) : Host :=
  ⟨ProcessTable.empty.add (xLaunch spelling).entry (Nat.succ_pos 8) List.not_mem_nil,
    (emptyHost.writeFile (bytes "/tmp/cllama-serve-x.pid") (pidLine 9)).files, []⟩

theorem cmdServe_xLaunch (spelling : List String) :
    cmdServe plainPaths (xLaunch spelling) emptyHost = some (xHost spelling) := rfl

theorem pidfileOf_xLaunch (spelling : List String) :
    PidfileOf plainPaths (xLaunch spelling).entry (bytes "/tmp/cllama-serve-x.pid") :=
  ⟨_, rfl, by simp [xLaunch, Launch.writes, Launch.effectivePidfile, namePidfile, bytes], rfl⟩

/-- A name in an argument of its own. -/
theorem pidfileTells_iff_separate :
    PidfileTells plainPaths (xHost ["--name", "x"])
        (stopProcess plainPaths [] ⟨none, true⟩ 9 (xHost ["--name", "x"]))
        (xLaunch ["--name", "x"]).entry (bytes "/tmp/cllama-serve-x.pid") ↔
      StopFits plainPaths [] (xHost ["--name", "x"]) ⟨none, true⟩ (xLaunch ["--name", "x"]).entry
        (bytes "/tmp/cllama-serve-x.pid") :=
  pidfileTells_iff plainPaths [] (xHost ["--name", "x"]) ⟨none, true⟩
    (xLaunch ["--name", "x"]).entry List.mem_cons_self rfl _ (pidfileOf_xLaunch _)

/-- An instance that got its name from `-n` and is killed leaves its pidfile behind. -/
theorem not_pidfileTells_short : ∃ chat : ChatDefaults Nat, ∃ position store,
    (app chat).parse (fun _ => none) (xLaunch ["-n", "x"]).argv.tail
        ((app chat).declare fun _ => .string []) = .ok (position, store) ∧
      position.fullName = bytes "serve start" ∧ store .serveName = .string (bytes "x") ∧
      store .pidfile = .string [] ∧ store .daemonFlag = .bool false ∧
      cmdServe plainPaths (xLaunch ["-n", "x"]) emptyHost = some (xHost ["-n", "x"]) ∧
      ¬PidfileTells plainPaths (xHost ["-n", "x"])
        (stopProcess plainPaths [] ⟨none, true⟩ 9 (xHost ["-n", "x"]))
        (xLaunch ["-n", "x"]).entry (bytes "/tmp/cllama-serve-x.pid") := by
  refine ⟨⟨7, 9⟩, _, _, rfl, rfl, rfl, rfl, rfl, cmdServe_xLaunch _, ?_⟩
  rintro ⟨own, -⟩
  revert own
  decide

end Cllama.Cli
