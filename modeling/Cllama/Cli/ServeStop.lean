import Cllama.Cli.Serve

/-!
# Whom `serve stop` signals

With a pid as its target, the command signals whatever process has this pid; with "all", it
signals the processes that look like instances.  A stop sends signals to one pid and leaves
the other processes as they are, so that the loop over the processes signals exactly those
that looked like instances at its beginning.
-/

namespace Cllama.Cli

open Cllama.Library Cllama.Platform

variable {paths : Paths} {directory : Bytes} {fates : Nat → Fate} {host : Host}

/-! ## One stop -/

@[simp] theorem removePidfiles_table {pid : Nat} :
    (removePidfiles paths directory pid host).table = host.table := by
  rw [removePidfiles]
  split <;> split <;> rfl

@[simp] theorem removePidfiles_signals {pid : Nat} :
    (removePidfiles paths directory pid host).signals = host.signals := by
  rw [removePidfiles]
  split <;> split <;> rfl

/-- A stop leaves the other processes alone. -/
theorem stopProcess_lookup {fate : Fate} {pid other : Nat} (differs : other ≠ pid) :
    (stopProcess paths directory fate pid host).table.lookup other = host.table.lookup other := by
  rcases fate with ⟨afterTerm, afterKill⟩
  rw [stopProcess]
  cases afterTerm <;> cases afterKill <;> dsimp only <;> split <;>
    simp [ProcessTable.lookup_remove differs]

/-- A stop sends signals, and only to its process. -/
theorem stopProcess_signals (fate : Fate) (pid : Nat) :
    ∃ sent, (stopProcess paths directory fate pid host).signals = host.signals ++ sent ∧
      sent ≠ [] ∧ ∀ signal ∈ sent, signal.1 = pid := by
  have signalled : (stopProcess paths directory fate pid host).signals =
        host.signals ++ [(pid, .term)] ∨
      (stopProcess paths directory fate pid host).signals =
        host.signals ++ [(pid, .term), (pid, .kill)] := by
    rcases fate with ⟨afterTerm, afterKill⟩
    rw [stopProcess]
    cases afterTerm <;> cases afterKill <;> dsimp only <;> split <;> simp
  rcases signalled with signalled | signalled
  · exact ⟨_, signalled, by simp, by simp⟩
  · exact ⟨_, signalled, by simp, by simp⟩

theorem getProcessCmdline_stopProcess {fate : Fate} {pid other : Nat} (differs : other ≠ pid) :
    (stopProcess paths directory fate pid host).getProcessCmdline other =
      host.getProcessCmdline other := by
  rw [Host.getProcessCmdline, stopProcess_lookup differs, Host.getProcessCmdline]

/-! ## All instances -/

/-- A process that the loop takes for an instance. -/
def Chosen (process : Nat × Bytes) (cmdline : Bytes) : Prop :=
  (find (bytes "cllama") process.2).isSome = true ∧ looksLikeServe cmdline = true

/-- By induction on the processes, whose command lines are those of the beginning. -/
theorem foldl_stopIfServe_signals {processes : List (Nat × Bytes)} {cmdline : Nat → Bytes}
    (distinct : (processes.map Prod.fst).Nodup)
    (same : ∀ process ∈ processes, host.getProcessCmdline process.1 = cmdline process.1) :
    ∃ sent, (processes.foldl (stopIfServe paths directory fates) host).signals =
        host.signals ++ sent ∧
      ∀ pid, (∃ signal ∈ sent, signal.1 = pid) ↔
        ∃ process ∈ processes, process.1 = pid ∧ Chosen process (cmdline process.1) := by
  induction processes generalizing host with
  | nil => exact ⟨[], by simp, by simp⟩
  | cons process processes ih =>
      rw [List.map_cons, List.nodup_cons] at distinct
      rw [List.forall_mem_cons] at same
      rw [List.foldl_cons, stopIfServe, same.1]
      by_cases chosen : Chosen process (cmdline process.1)
      · rw [if_pos (by rw [chosen.1, chosen.2]; rfl)]
        have others : ∀ other ∈ processes,
            (stopProcess paths directory (fates process.1) process.1 host).getProcessCmdline
              other.1 = cmdline other.1 := by
          intro other isOther
          rw [getProcessCmdline_stopProcess, same.2 other isOther]
          intro samePid
          exact distinct.1 (samePid ▸ List.mem_map_of_mem isOther)
        rcases @stopProcess_signals paths directory host (fates process.1) process.1 with
          ⟨first, firstSent, nonempty, firstTo⟩
        rcases ih distinct.2 others with ⟨sent, allSent, receivers⟩
        refine ⟨first ++ sent, by rw [allSent, firstSent, List.append_assoc], fun pid => ?_⟩
        simp only [List.mem_append, or_and_right, exists_or]
        rw [receivers, List.exists_mem_cons_iff]
        apply or_congr_left
        constructor
        · rintro ⟨signal, isSent, rfl⟩
          exact ⟨(firstTo signal isSent).symm, chosen⟩
        · rintro ⟨rfl, -⟩
          rcases List.exists_mem_of_ne_nil first nonempty with ⟨signal, isSent⟩
          exact ⟨signal, isSent, firstTo signal isSent⟩
      · rw [if_neg (by rw [Bool.and_eq_true]; exact chosen)]
        rcases ih distinct.2 same.2 with ⟨sent, allSent, receivers⟩
        refine ⟨sent, allSent, fun pid => ?_⟩
        rw [receivers, List.exists_mem_cons_iff]
        exact (or_iff_right fun isFirst => chosen isFirst.2).symm

/-! ## The command -/

/-- The arguments of an instance. -/
def StartedAsServe (argv : List Bytes) : Prop :=
  ∃ path others, argv = path :: bytes "serve" :: bytes "start" :: others ∧
    (path = bytes "cllama" ∨ ∃ folder, path = folder ++ bytes "/cllama")

/-- No exception escapes, and all signals go to instances. -/
structure SignalsInstances (host : Host) (result : Option Int × Host) : Prop where
  returns : result.1.isSome = true
  signals : ∃ sent, result.2.signals = host.signals ++ sent ∧
    ∀ signal ∈ sent, 0 < signal.1 ∧
      ∃ entry ∈ host.table.entries, entry.pid = signal.1 ∧ StartedAsServe entry.argv

/-- A process that `serve stop all` takes for an instance. -/
def Listed (entry : ProcessEntry) : Prop :=
  entry.signalable = true ∧ entry.zombie = false ∧
    Chosen (entry.pid, entry.comm.takeWhile (· ≠ 0x0A)) (Host.joinArgs entry.argv)

/-- What "all" lists are instances; a pid fits into an `int`, is not zero, and is that of an
instance if the caller may signal it. -/
def TargetsInstances (target : Bytes) (host : Host) : Prop :=
  if target = bytes "all" then
    ∀ entry ∈ host.table.entries, Listed entry → StartedAsServe entry.argv
  else
    target ≠ [] → ∃ pid, Decimal.stoi target = some pid ∧ pid ≠ 0 ∧
      ∀ entry ∈ host.table.entries, entry.pid = pid → entry.signalable = true →
        StartedAsServe entry.argv

theorem getProcessCmdline_of_mem {entry : ProcessEntry} (isEntry : entry ∈ host.table.entries)
    (alive : entry.zombie = false) :
    host.getProcessCmdline entry.pid = Host.joinArgs entry.argv := by
  rw [Host.getProcessCmdline, ProcessTable.lookup_eq_some_iff.mpr ⟨isEntry, rfl⟩]
  simp [alive]

/-- The entry of a pid is the only one. -/
theorem entry_unique {entry other : ProcessEntry} (isEntry : entry ∈ host.table.entries)
    (isOther : other ∈ host.table.entries) (same : entry.pid = other.pid) : entry = other :=
  List.inj_on_of_nodup_map host.table.distinct isEntry isOther same

/-- The signals sent by a command that returns. -/
theorem signalsInstances_iff_receivers {code : Int} {next : Host} {sent : List (Nat × Signal)}
    (allSent : next.signals = host.signals ++ sent) :
    SignalsInstances host (some code, next) ↔
      ∀ pid, (∃ signal ∈ sent, signal.1 = pid) →
        0 < pid ∧ ∃ entry ∈ host.table.entries, entry.pid = pid ∧ StartedAsServe entry.argv := by
  constructor
  · rintro ⟨-, ⟨others, alsoSent, instances⟩⟩ pid ⟨signal, isSent, rfl⟩
    rw [allSent, List.append_cancel_left_eq] at alsoSent
    subst alsoSent
    exact instances signal isSent
  · intro instances
    exact ⟨rfl, sent, allSent, fun signal isSent => instances signal.1 ⟨signal, isSent, rfl⟩⟩

/-- All signals go to instances if all that is listed is an instance. -/
theorem cmdServeStopAll_signalsInstances_iff {code : Int} :
    SignalsInstances host (some code, cmdServeStopAll paths directory fates host) ↔
      ∀ entry ∈ host.table.entries, Listed entry → StartedAsServe entry.argv := by
  have distinct : (host.listProcesses.map Prod.fst).Nodup := by
    rw [Host.listProcesses, List.map_map]
    exact host.table.distinct.sublist (List.filter_sublist.map _)
  rcases @foldl_stopIfServe_signals paths directory fates host host.listProcesses
    host.getProcessCmdline distinct (fun _ _ => rfl) with ⟨sent, allSent, receivers⟩
  have listed : ∀ pid, (∃ signal ∈ sent, signal.1 = pid) ↔
      ∃ entry ∈ host.table.entries, entry.pid = pid ∧ Listed entry := by
    intro pid
    rw [receivers]
    constructor
    · rintro ⟨process, isProcess, rfl, chosen⟩
      rcases List.mem_map.mp isProcess with ⟨entry, isListed, rfl⟩
      rw [List.mem_filter, Bool.and_eq_true, Bool.not_eq_true'] at isListed
      rw [getProcessCmdline_of_mem isListed.1 isListed.2.2] at chosen
      exact ⟨entry, isListed.1, rfl, isListed.2.1, isListed.2.2, chosen⟩
    · rintro ⟨entry, isEntry, rfl, signalable, alive, chosen⟩
      refine ⟨(entry.pid, _), List.mem_map_of_mem (List.mem_filter.mpr ⟨isEntry, ?_⟩), rfl, ?_⟩
      · rw [signalable, alive]
        rfl
      · rw [getProcessCmdline_of_mem isEntry alive]
        exact chosen
  rw [cmdServeStopAll, signalsInstances_iff_receivers allSent]
  constructor
  · intro instances entry isEntry isListed
    rcases instances entry.pid ((listed _).mpr ⟨entry, isEntry, rfl, isListed⟩) with
      ⟨-, other, isOther, same, started⟩
    rwa [entry_unique isEntry isOther same.symm]
  · intro started pid isReceiver
    rcases (listed pid).mp isReceiver with ⟨entry, isEntry, rfl, isListed⟩
    exact ⟨host.table.positive entry isEntry, entry, isEntry, rfl, started entry isEntry isListed⟩

/-- A stop of one process signals an instance if the process is one. -/
theorem stopProcess_signalsInstances_iff {code : Int} {fate : Fate} {pid : Nat} :
    SignalsInstances host (some code, stopProcess paths directory fate pid host) ↔
      0 < pid ∧ ∃ entry ∈ host.table.entries, entry.pid = pid ∧ StartedAsServe entry.argv := by
  rcases @stopProcess_signals paths directory host fate pid with ⟨sent, allSent, nonempty, only⟩
  rw [signalsInstances_iff_receivers allSent]
  constructor
  · intro instances
    rcases List.exists_mem_of_ne_nil sent nonempty with ⟨signal, isSent⟩
    exact instances pid ⟨signal, isSent, only signal isSent⟩
  · rintro started other ⟨signal, isSent, rfl⟩
    rwa [only signal isSent]

theorem processIsAlive_iff {pid : Nat} :
    host.processIsAlive pid = true ↔
      pid = 0 ∨ ∃ entry ∈ host.table.entries, entry.pid = pid ∧ entry.signalable = true := by
  simp [Host.processIsAlive]

/-- A pid as the target. -/
theorem stopPid_signalsInstances_iff {pid : Nat} :
    SignalsInstances host
        (if host.processIsAlive pid then
          (some 0, stopProcess paths directory (fates pid) pid host)
        else (some 1, host)) ↔
      pid ≠ 0 ∧ ∀ entry ∈ host.table.entries, entry.pid = pid → entry.signalable = true →
        StartedAsServe entry.argv := by
  split
  next alive =>
    rw [stopProcess_signalsInstances_iff]
    rw [processIsAlive_iff] at alive
    constructor
    · rintro ⟨positive, entry, isEntry, rfl, started⟩
      refine ⟨Nat.ne_of_gt positive, fun other isOther same _ => ?_⟩
      rwa [entry_unique isOther isEntry same]
    · rintro ⟨nonzero, started⟩
      rcases alive.resolve_left nonzero with ⟨entry, isEntry, rfl, signalable⟩
      exact ⟨Nat.pos_of_ne_zero nonzero, entry, isEntry, rfl,
        started entry isEntry rfl signalable⟩
  next dead =>
    rw [processIsAlive_iff, not_or] at dead
    apply iff_of_true ((signalsInstances_iff_receivers (List.append_nil _).symm).mpr (by simp))
    exact ⟨dead.1, fun entry isEntry same signalable =>
      absurd ⟨entry, isEntry, same, signalable⟩ dead.2⟩

/-- For every table of processes: a pid or "all" as the target stops instances only, exactly
under the condition above. -/
theorem signalsInstances_iff (paths : Paths) (directory : Bytes) (fates : Nat → Fate)
    (host : Host) (target : Bytes)
    (isTarget : target = bytes "all" ∨ target.all Decimal.isDigit = true) :
    SignalsInstances host (cmdServeStop paths directory fates target host) ↔
      TargetsInstances target host := by
  rw [cmdServeStop, TargetsInstances]
  by_cases all : target = bytes "all"
  · have nonempty : target ≠ [] := by
      rw [all]
      decide
    rw [if_neg nonempty, if_pos all, if_pos all]
    exact cmdServeStopAll_signalsInstances_iff
  · rw [if_neg all, if_neg all, if_pos (isTarget.resolve_left all)]
    by_cases empty : target = []
    · rw [if_pos empty]
      apply iff_of_true ((signalsInstances_iff_receivers (List.append_nil _).symm).mpr (by simp))
      exact fun nonempty => absurd empty nonempty
    · rw [if_neg empty]
      cases Decimal.stoi target with
      | none => exact iff_of_false (fun stopped => by cases stopped.returns) (by simp [empty])
      | some pid =>
          rw [stopPid_signalsInstances_iff]
          simp [empty]

/-- Paths that are all absolute. -/
def plainPaths : Paths where
  locate _ path := path
  absolute _ _ _ _ := rfl

/-- A host without processes. -/
def emptyHost : Host := ⟨.empty, fun _ => none, []⟩

theorem signalsInstances_iff_absent :
    SignalsInstances emptyHost
        (cmdServeStop plainPaths [] (fun _ => ⟨some true, true⟩) (bytes "7") emptyHost) ↔
      TargetsInstances (bytes "7") emptyHost :=
  signalsInstances_iff plainPaths [] (fun _ => ⟨some true, true⟩) emptyHost (bytes "7")
    (Or.inr (by decide))

/-- `serve stop 0` signals the process group of the caller. -/
theorem not_signalsInstances_zero :
    ¬SignalsInstances emptyHost
      (cmdServeStop plainPaths [] (fun _ => ⟨some true, true⟩) (bytes "0") emptyHost) := by
  have stops : cmdServeStop plainPaths [] (fun _ => ⟨some true, true⟩) (bytes "0") emptyHost =
      (some 0, stopProcess plainPaths [] ⟨some true, true⟩ 0 emptyHost) := rfl
  rw [stops, stopProcess_signalsInstances_iff]
  exact fun started => absurd started.1 (by decide)

end Cllama.Cli
