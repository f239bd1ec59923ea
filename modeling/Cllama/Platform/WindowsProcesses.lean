import Cllama.Library.Custody
import Cllama.Library.Transition

/-!
# Process handles on Windows

A process whose handle is open keeps its pid.  `spawn_process` puts the handle of the process it
creates into a map under the pid, and `wait_process` takes it out again, waits and closes it; the
map has a mutex, and the rest of both functions runs next to the other calls.  Values of closed
handles are given out again, so that a handle closed twice may be that of another call.
-/

namespace Cllama.Platform.Windows

open Cllama.Library

/-! ## The kernel -/

/-- What a handle refers to, by the number of the process. -/
inductive Target where
  | process (serial : Nat)
  | thread (serial : Nat)
  deriving DecidableEq

def Target.serial : Target → Nat
  | process serial => serial
  | thread serial => serial

/-- An open handle.  A program knows its value only. -/
structure Handle where
  value : Nat
  target : Target
  deriving DecidableEq

/-- The processes created so far, and the open handles. -/
structure Kernel where
  created : Nat
  pid : Nat → Int
  exitCode : Nat → Option Int
  handles : List Handle

namespace Kernel

variable (kernel : Kernel)

/-- A process that runs, or has a handle. -/
def inUse (serial : Nat) : Bool :=
  decide (serial < kernel.created) && ((kernel.exitCode serial).isNone ||
    kernel.handles.any (·.target = .process serial))

/-- The process with a pid. -/
def withPid (pid : Int) : Option Nat :=
  (List.range kernel.created).find? fun serial => kernel.inUse serial && kernel.pid serial = pid

def isFresh (value : Nat) : Bool :=
  kernel.handles.all (·.value ≠ value)

/-- The process that a handle value refers to. -/
def processOf (value : Nat) : Option Nat :=
  (kernel.handles.find? (·.value = value)).bind fun handle =>
    match handle.target with
    | .process serial => some serial
    | .thread _ => none

/-- `GetExitCodeProcess`, which has no code for a process that runs. -/
def exitCodeOf (value : Nat) : Option Int :=
  (kernel.processOf value).bind kernel.exitCode

def openHandle (handle : Handle) : Kernel :=
  { kernel with handles := handle :: kernel.handles }

/-- `CloseHandle`. -/
def closeHandle (value : Nat) : Kernel :=
  { kernel with handles := kernel.handles.eraseP (·.value = value) }

/-- A process that runs exits. -/
def exit (serial : Nat) (code : Int) : Kernel :=
  { kernel with exitCode :=
      Function.update kernel.exitCode serial (some ((kernel.exitCode serial).getD code)) }

/-- `TerminateProcess` with the exit code one. -/
def terminate (value : Nat) : Kernel :=
  match kernel.processOf value with
  | some serial => kernel.exit serial 1
  | none => kernel

/-- `CreateProcessA`: a new process with a pid, and handles of it and of its thread. -/
def createProcess (pid : Int) (process thread : Nat) : Kernel where
  created := kernel.created + 1
  pid := Function.update kernel.pid kernel.created pid
  exitCode := Function.update kernel.exitCode kernel.created none
  handles :=
    ⟨process, .process kernel.created⟩ :: ⟨thread, .thread kernel.created⟩ :: kernel.handles

end Kernel

/-! ## Calls in progress -/

/-- Where a call stands.  `spawn_process`: the process has been created; its handle is in the
map.  `wait_process`: at its start; with the handle it has taken out of the map; after
`WaitForSingleObject`; with the exit code.  `process_is_alive` and `kill_process`: with the handle
they have opened; after its use. -/
inductive Call where
  | created (pid : Int) (process thread : Handle)
  | stored (pid : Int) (thread : Handle)
  | wait (pid : Int)
  | taken (pid : Int) (process : Handle)
  | signalled (pid : Int) (process : Handle)
  | read (pid : Int) (process : Handle) (exitCode : Int)
  | opened (process : Handle) (terminates : Bool)
  | used (process : Handle)
  deriving DecidableEq

/-- The handles of a call. -/
def Call.handles : Call → List Handle
  | .created _ process thread => [process, thread]
  | .stored _ thread => [thread]
  | .wait _ => []
  | .taken _ process => [process]
  | .signalled _ process => [process]
  | .read _ process _ => [process]
  | .opened process _ => [process]
  | .used process => [process]

/-- The process whose one handle made by `CreateProcessA` a call holds. -/
def Call.custodian : Call → List Nat
  | .created _ process _ => [process.target.serial]
  | .stored _ _ => []
  | .wait _ => []
  | .taken _ process => [process.target.serial]
  | .signalled _ process => [process.target.serial]
  | .read _ process _ => [process.target.serial]
  | .opened _ _ => []
  | .used _ => []

/-- A process that has been waited for, with the pid that was given and the exit code that was
returned. -/
structure Reaped where
  serial : Nat
  pid : Int
  exitCode : Int
  deriving DecidableEq

/-- The kernel, `process_handles`, the calls in progress, and what has been waited for. -/
structure Processes where
  kernel : Kernel
  table : List (Int × Handle)
  calls : List Call
  reaped : List Reaped

inductive Action where
  | spawnProcess (pid : Int) (process thread : Nat)
  | waitProcess (pid : Int)
  | openProcess (pid : Int) (value : Nat) (terminates : Bool)
  | proceed (call : Nat)
  | exit (serial : Nat) (code : Int)

namespace Processes

variable (state : Processes)

def fresh : Processes where
  kernel := ⟨0, fun _ => 0, fun _ => none, []⟩
  table := []
  calls := []
  reaped := []

/-- `CreateProcessA` in a call of `spawn_process`.  The pid is that of no process in use, and the
handles are new. -/
def spawnProcess (pid : Int) (process thread : Nat) : Option Processes :=
  let kernel := state.kernel
  if (kernel.withPid pid).isNone ∧ kernel.isFresh process ∧ kernel.isFresh thread ∧
      process ≠ thread then
    let serial := kernel.created
    some { state with
      kernel := kernel.createProcess pid process thread
      calls := .created pid ⟨process, .process serial⟩ ⟨thread, .thread serial⟩ :: state.calls }
  else none

/-- `OpenProcess` in a call of `process_is_alive` or `kill_process`. -/
def openProcess (pid : Int) (value : Nat) (terminates : Bool) : Option Processes :=
  if state.kernel.isFresh value then
    (state.kernel.withPid pid).map fun serial =>
      let handle : Handle := ⟨value, .process serial⟩
      { state with
        kernel := state.kernel.openHandle handle
        calls := .opened handle terminates :: state.calls }
  else none

/-- The state with a call at its next place. -/
def moveTo (i : Nat) (next : Option Call) : Processes :=
  { state with calls := replaceTask i next state.calls }

/-- The next step of a call. -/
def proceed (i : Nat) : Option Processes :=
  match state.calls[i]? with
  | none => none
  | some (.created pid process thread) =>
      some { state.moveTo i (some (.stored pid thread)) with
        table := (pid, process) :: state.table.filter (·.1 ≠ pid) }
  | some (.stored _ thread) =>
      some { state.moveTo i none with kernel := state.kernel.closeHandle thread.value }
  | some (.wait pid) =>
      match state.table.lookup pid with
      | none => some (state.moveTo i none)
      | some process =>
          some { state.moveTo i (some (.taken pid process)) with
            table := state.table.filter (·.1 ≠ pid) }
  | some (.taken pid process) =>
      if (state.kernel.exitCodeOf process.value).isSome then
        some (state.moveTo i (some (.signalled pid process)))
      else none
  | some (.signalled pid process) =>
      (state.kernel.exitCodeOf process.value).map fun code =>
        state.moveTo i (some (.read pid process code))
  | some (.read pid process code) =>
      some { state.moveTo i none with
        kernel := state.kernel.closeHandle process.value
        reaped := ⟨process.target.serial, pid, code⟩ :: state.reaped }
  | some (.opened process terminates) =>
      let kernel := if terminates then state.kernel.terminate process.value else state.kernel
      some { state.moveTo i (some (.used process)) with kernel := kernel }
  | some (.used process) =>
      some { state.moveTo i none with kernel := state.kernel.closeHandle process.value }

def step : Action → Option Processes
  | .spawnProcess pid process thread => state.spawnProcess pid process thread
  | .waitProcess pid => some { state with calls := .wait pid :: state.calls }
  | .openProcess pid value terminates => state.openProcess pid value terminates
  | .proceed i => state.proceed i
  | .exit serial code =>
      if serial < state.kernel.created then
        some { state with kernel := state.kernel.exit serial code }
      else none

end Processes

/-- The calls of any threads, in any order of their steps. -/
def processCalls : Machine Processes Action where
  Initial := (· = .fresh)
  step := Processes.step


/-! ## Kernels over time -/

section Kernels

variable {kernel next : Kernel}

/-- A handle of the process that was given a pid. -/
def Kernel.Refers (kernel : Kernel) (pid : Int) (handle : Handle) : Prop :=
  ∃ serial < kernel.created, handle.target = .process serial ∧ kernel.pid serial = pid

/-- Processes keep their pids and their exit codes. -/
structure Kernel.Later (kernel next : Kernel) : Prop where
  created : kernel.created ≤ next.created
  pid : ∀ serial < kernel.created, next.pid serial = kernel.pid serial
  exitCode : ∀ serial < kernel.created, ∀ code,
    kernel.exitCode serial = some code → next.exitCode serial = some code

/-- No process is created, and none that was not in use comes into use. -/
structure Kernel.Retains (kernel next : Kernel) : Prop where
  created : next.created = kernel.created
  pid : next.pid = kernel.pid
  exitCode : ∀ serial code,
    kernel.exitCode serial = some code → next.exitCode serial = some code
  inUse : ∀ serial, next.inUse serial = true → kernel.inUse serial = true

theorem Kernel.Retains.refl (kernel : Kernel) : kernel.Retains kernel :=
  ⟨rfl, rfl, fun _ _ => id, fun _ => id⟩

theorem Kernel.Retains.later (retains : kernel.Retains next) : kernel.Later next where
  created := retains.created.ge
  pid serial _ := congrFun retains.pid serial
  exitCode serial _ := retains.exitCode serial

theorem Kernel.inUse_iff {serial : Nat} : kernel.inUse serial = true ↔
    serial < kernel.created ∧
      (kernel.exitCode serial = none ∨
        ∃ handle ∈ kernel.handles, handle.target = .process serial) := by
  simp [Kernel.inUse]

theorem Kernel.withPid_eq_some {pid : Int} {serial : Nat}
    (found : kernel.withPid pid = some serial) :
    kernel.inUse serial = true ∧ kernel.pid serial = pid := by
  simpa using List.find?_some found

theorem Kernel.withPid_eq_none {pid : Int} (absent : kernel.withPid pid = none) {serial : Nat}
    (inUse : kernel.inUse serial = true) : kernel.pid serial ≠ pid := by
  have bound := (Kernel.inUse_iff.mp inUse).1
  have unused := List.find?_eq_none.mp absent serial (List.mem_range.mpr bound)
  intro same
  simp [inUse, same] at unused

theorem Kernel.isFresh_iff {value : Nat} :
    kernel.isFresh value = true ↔ value ∉ kernel.handles.map Handle.value := by
  simp [Kernel.isFresh]

/-- A handle is found by its value. -/
theorem Kernel.find_value (distinct : (kernel.handles.map Handle.value).Nodup) {handle : Handle}
    (isOpen : handle ∈ kernel.handles) :
    kernel.handles.find? (·.value = handle.value) = some handle := by
  cases found : kernel.handles.find? (·.value = handle.value) with
  | none => simpa using List.find?_eq_none.mp found handle isOpen
  | some other =>
      have same : other.value = handle.value := by simpa using List.find?_some found
      rw [List.inj_on_of_nodup_map distinct (List.mem_of_find?_eq_some found) isOpen same]

theorem Kernel.processOf_value (distinct : (kernel.handles.map Handle.value).Nodup)
    {handle : Handle} (isOpen : handle ∈ kernel.handles) {serial : Nat}
    (refers : handle.target = .process serial) : kernel.processOf handle.value = some serial := by
  rw [Kernel.processOf, Kernel.find_value distinct isOpen, Option.bind_some, refers]

theorem Kernel.exitCodeOf_value (distinct : (kernel.handles.map Handle.value).Nodup)
    {handle : Handle} (isOpen : handle ∈ kernel.handles) {serial : Nat}
    (refers : handle.target = .process serial) :
    kernel.exitCodeOf handle.value = kernel.exitCode serial := by
  rw [Kernel.exitCodeOf, Kernel.processOf_value distinct isOpen refers, Option.bind_some]

/-- `CloseHandle` closes the handle it is given and no other one. -/
theorem Kernel.closeHandle_perm (distinct : (kernel.handles.map Handle.value).Nodup)
    {handle : Handle} (isOpen : handle ∈ kernel.handles) :
    kernel.handles.Perm (handle :: (kernel.closeHandle handle.value).handles) := by
  have accepted : decide (handle.value = handle.value) = true := decide_eq_true rfl
  rcases List.exists_of_eraseP (p := (·.value = handle.value)) isOpen accepted with
    ⟨other, before, after, -, same, split, erased⟩
  have isHandle : other = handle := by
    apply List.inj_on_of_nodup_map distinct _ isOpen (of_decide_eq_true same)
    rw [split]
    exact List.mem_append_cons_self
  rw [Kernel.closeHandle, erased, split, isHandle]
  exact List.perm_middle

theorem Kernel.closeHandle_retains (value : Nat) : kernel.Retains (kernel.closeHandle value) where
  created := rfl
  pid := rfl
  exitCode _ _ := id
  inUse serial := by
    rw [Kernel.inUse_iff, Kernel.inUse_iff]
    rintro ⟨bound, running | ⟨handle, isOpen, refers⟩⟩
    · exact ⟨bound, Or.inl running⟩
    · exact ⟨bound, Or.inr ⟨handle, List.mem_of_mem_eraseP isOpen, refers⟩⟩

@[simp] theorem Kernel.exit_exitCode (serial : Nat) (code : Int) (other : Nat) :
    (kernel.exit serial code).exitCode other =
      if other = serial then some ((kernel.exitCode serial).getD code)
      else kernel.exitCode other :=
  Function.update_apply _ _ _ _

theorem Kernel.exit_retains (serial : Nat) (code : Int) :
    kernel.Retains (kernel.exit serial code) where
  created := rfl
  pid := rfl
  exitCode other value ended := by
    rw [Kernel.exit_exitCode]
    split
    next same => rw [← same, ended, Option.getD_some]
    next => exact ended
  inUse other := by
    rw [Kernel.inUse_iff, Kernel.inUse_iff, Kernel.exit_exitCode]
    rintro ⟨bound, running | isOpen⟩
    · split at running
      · cases running
      · exact ⟨bound, Or.inl running⟩
    · exact ⟨bound, Or.inr isOpen⟩

theorem Kernel.terminate_retains (value : Nat) : kernel.Retains (kernel.terminate value) := by
  rw [Kernel.terminate]
  split
  · exact Kernel.exit_retains _ _
  · exact .refl kernel

theorem Kernel.terminate_handles (value : Nat) :
    (kernel.terminate value).handles = kernel.handles := by
  rw [Kernel.terminate]
  split <;> rfl

/-- Another handle of a process in use. -/
theorem Kernel.openHandle_retains {value serial : Nat} (inUse : kernel.inUse serial = true) :
    kernel.Retains (kernel.openHandle ⟨value, .process serial⟩) where
  created := rfl
  pid := rfl
  exitCode _ _ := id
  inUse other := by
    rw [@Kernel.inUse_iff kernel, Kernel.inUse_iff]
    rintro ⟨bound, running | ⟨handle, isOpen, refers⟩⟩
    · exact ⟨bound, Or.inl running⟩
    · rcases List.mem_cons.mp isOpen with rfl | old
      · cases refers
        exact Kernel.inUse_iff.mp inUse
      · exact ⟨bound, Or.inr ⟨handle, old, refers⟩⟩

@[simp] theorem Kernel.createProcess_pid (pid : Int) (process thread serial : Nat) :
    (kernel.createProcess pid process thread).pid serial =
      if serial = kernel.created then pid else kernel.pid serial :=
  Function.update_apply _ _ _ _

@[simp] theorem Kernel.createProcess_exitCode (pid : Int) (process thread serial : Nat) :
    (kernel.createProcess pid process thread).exitCode serial =
      if serial = kernel.created then none else kernel.exitCode serial :=
  Function.update_apply _ _ _ _

theorem Kernel.createProcess_later (pid : Int) (process thread : Nat) :
    kernel.Later (kernel.createProcess pid process thread) where
  created := Nat.le_succ _
  pid serial bound := by rw [Kernel.createProcess_pid, if_neg (Nat.ne_of_lt bound)]
  exitCode serial bound code ended := by
    rw [Kernel.createProcess_exitCode, if_neg (Nat.ne_of_lt bound), ended]

/-- The new process and those that were in use before. -/
theorem Kernel.inUse_of_createProcess {pid : Int} {process thread serial : Nat}
    (inUse : (kernel.createProcess pid process thread).inUse serial = true) :
    serial = kernel.created ∨ kernel.inUse serial = true ∧ serial ≠ kernel.created := by
  by_cases same : serial = kernel.created
  · exact Or.inl same
  · right
    rcases Kernel.inUse_iff.mp inUse with ⟨bound, used⟩
    have before : serial < kernel.created := Nat.lt_of_le_of_ne (Nat.lt_succ_iff.mp bound) same
    refine ⟨Kernel.inUse_iff.mpr ⟨before, ?_⟩, same⟩
    rw [Kernel.createProcess_exitCode, if_neg same] at used
    rcases used with running | ⟨handle, isOpen, target⟩
    · exact Or.inl running
    · right
      rcases List.mem_cons.mp isOpen with rfl | isOpen
      · cases target
        exact absurd rfl same
      · rcases List.mem_cons.mp isOpen with rfl | isOpen
        · cases target
        · exact ⟨handle, isOpen, target⟩

theorem Kernel.Refers.inUse {pid : Int} {handle : Handle} (refers : kernel.Refers pid handle)
    (isOpen : handle ∈ kernel.handles) :
    ∃ serial, handle.target = .process serial ∧ kernel.pid serial = pid ∧
      kernel.inUse serial = true := by
  rcases refers with ⟨serial, bound, target, same⟩
  exact ⟨serial, target, same, Kernel.inUse_iff.mpr ⟨bound, Or.inr ⟨handle, isOpen, target⟩⟩⟩

theorem Kernel.Refers.later {pid : Int} {handle : Handle} (refers : kernel.Refers pid handle)
    (later : kernel.Later next) : next.Refers pid handle := by
  rcases refers with ⟨serial, bound, target, same⟩
  exact ⟨serial, Nat.lt_of_lt_of_le bound later.created, target,
    (later.pid serial bound).trans same⟩

end Kernels

/-! ## Custody of the handles -/

/-- What a call knows of the handles it holds. -/
def Call.Fits (kernel : Kernel) : Call → Prop
  | .created pid process _ => kernel.Refers pid process
  | .taken pid process => kernel.Refers pid process
  | .signalled pid process => kernel.Refers pid process
  | .read pid process code =>
      kernel.Refers pid process ∧ kernel.exitCode process.target.serial = some code
  | _ => True

theorem Call.Fits.later {kernel next : Kernel} (later : kernel.Later next) {call : Call}
    (fits : call.Fits kernel) : call.Fits next := by
  cases call with
  | created | taken | signalled => exact Kernel.Refers.later fits later
  | read pid process code =>
      rcases fits with ⟨refers, ended⟩
      have bound : process.target.serial < kernel.created := by
        rcases refers with ⟨serial, bound, target, -⟩
        rwa [target]
      exact ⟨refers.later later, later.exitCode _ bound code ended⟩
  | stored | wait | opened | used => trivial

/-- The processes whose handles are in the map, and those that have been waited for. -/
def settled (table : List (Int × Handle)) (reaped : List Reaped) : Multiset Nat :=
  ↑(table.map fun entry => entry.2.target.serial) + ↑(reaped.map Reaped.serial)

/-- Every open handle is held once, by the map or by a call; every process has its handle in the
map or with one call, or has been waited for; and no two processes in use have the same pid. -/
structure InCustody (state : Processes) : Prop where
  values : (state.kernel.handles.map Handle.value).Nodup
  handles : Custody Call.handles ↑state.kernel.handles ↑(state.table.map Prod.snd) state.calls
  processes : Custody Call.custodian ↑(List.range state.kernel.created)
    (settled state.table state.reaped) state.calls
  pids : ∀ left right, state.kernel.inUse left = true → state.kernel.inUse right = true →
    state.kernel.pid left = state.kernel.pid right → left = right
  keys : (state.table.map Prod.fst).Nodup
  table : ∀ entry ∈ state.table, state.kernel.Refers entry.1 entry.2
  calls : ∀ call ∈ state.calls, call.Fits state.kernel
  reaped : ∀ child ∈ state.reaped, child.serial < state.kernel.created ∧
    state.kernel.pid child.serial = child.pid ∧
      state.kernel.exitCode child.serial = some child.exitCode

/-- The entry that is looked up and the others. -/
theorem table_perm {table : List (Int × Handle)} (keys : (table.map Prod.fst).Nodup) {pid : Int}
    {process : Handle} (found : table.lookup pid = some process) :
    table.Perm ((pid, process) :: table.filter (·.1 ≠ pid)) := by
  induction table with
  | nil => cases found
  | cons entry table ih =>
      rcases entry with ⟨key, handle⟩
      rcases List.nodup_cons.mp keys with ⟨absent, keys⟩
      by_cases same : key = pid
      · subst same
        rw [List.lookup_cons_self, Option.some.injEq] at found
        subst found
        have others : table.filter (·.1 ≠ key) = table := by
          apply List.filter_eq_self.mpr
          intro other member
          apply decide_eq_true
          intro same
          exact absent (List.mem_map.mpr ⟨other, member, same⟩)
        rw [List.filter_cons_of_neg (by simp), others]
      · rw [List.lookup_cons, beq_false_of_ne (Ne.symm same)] at found
        have kept : decide ((key, handle).1 ≠ pid) = true := decide_eq_true same
        rw [List.filter_cons, if_pos kept]
        exact ((ih keys found).cons _).trans (.swap _ _ _)

namespace InCustody

variable {state : Processes} {i : Nat} {call : Call}

/-- A call goes on, and the kernel, the map and the list of those waited for change with it. -/
theorem proceed_call (inCustody : InCustody state) (found : state.calls[i]? = some call)
    {next : Option Call} {kernel : Kernel} {table : List (Int × Handle)} {reaped : List Reaped}
    (retains : state.kernel.Retains kernel) (values : (kernel.handles.map Handle.value).Nodup)
    (handleBalance : (↑(table.map Prod.snd) + ↑(next.elim [] Call.handles) +
        ↑state.kernel.handles : Multiset Handle) =
      ↑(state.table.map Prod.snd) + ↑call.handles + ↑kernel.handles)
    (processBalance : settled table reaped + ↑(next.elim [] Call.custodian) =
      settled state.table state.reaped + ↑call.custodian)
    (keys : (table.map Prod.fst).Nodup)
    (refers : ∀ entry ∈ table, state.kernel.Refers entry.1 entry.2)
    (fits : ∀ call, next = some call → call.Fits kernel)
    (ended : ∀ child ∈ reaped, child.serial < kernel.created ∧
      kernel.pid child.serial = child.pid ∧
        kernel.exitCode child.serial = some child.exitCode) :
    InCustody ⟨kernel, table, replaceTask i next state.calls, reaped⟩ where
  values := values
  handles := inCustody.handles.step found next handleBalance values.of_map
  processes := by
    have nodup := inCustody.processes.nodup
    rw [← retains.created] at nodup
    apply inCustody.processes.step found next _ nodup
    rw [processBalance, retains.created]
  pids left right leftUsed rightUsed same := by
    rw [retains.pid] at same
    exact inCustody.pids left right (retains.inUse left leftUsed) (retains.inUse right rightUsed)
      same
  keys := keys
  table entry isEntry := (refers entry isEntry).later retains.later
  calls other member := by
    rcases mem_replaceTask member with old | new
    · exact (inCustody.calls other old).later retains.later
    · exact fits other new
  reaped := ended

/-- What has been waited for stays so. -/
theorem reaped_retains (inCustody : InCustody state) {kernel : Kernel}
    (retains : state.kernel.Retains kernel) : ∀ child ∈ state.reaped,
      child.serial < kernel.created ∧ kernel.pid child.serial = child.pid ∧
        kernel.exitCode child.serial = some child.exitCode := by
  intro child member
  rcases inCustody.reaped child member with ⟨bound, pid, ended⟩
  exact ⟨retains.created.symm ▸ bound, by rw [retains.pid, pid], retains.exitCode _ _ ended⟩

/-- A call goes on and nothing else changes. -/
theorem proceed_alone (inCustody : InCustody state) (found : state.calls[i]? = some call)
    {next : Option Call} (handles : next.elim [] Call.handles = call.handles)
    (custodian : next.elim [] Call.custodian = call.custodian)
    (fits : ∀ call, next = some call → call.Fits state.kernel) :
    InCustody (state.moveTo i next) :=
  inCustody.proceed_call found (.refl _) inCustody.values (by rw [handles]) (by rw [custodian])
    inCustody.keys inCustody.table fits inCustody.reaped

/-- A call closes the handle it holds and comes to its end. -/
theorem proceed_close (inCustody : InCustody state) (found : state.calls[i]? = some call)
    {handle : Handle} (holds : call.handles = [handle]) {reaped : List Reaped}
    (processBalance : settled state.table reaped =
      settled state.table state.reaped + ↑call.custodian)
    (ended : ∀ child ∈ reaped, child.serial < state.kernel.created ∧
      state.kernel.pid child.serial = child.pid ∧
        state.kernel.exitCode child.serial = some child.exitCode) :
    InCustody { state.moveTo i none with
      kernel := state.kernel.closeHandle handle.value
      reaped := reaped } := by
  have isOpen : handle ∈ state.kernel.handles := by
    apply inCustody.handles.mem_of_task (List.mem_of_getElem? found)
    rw [holds]
    exact List.mem_singleton_self handle
  have closed := Kernel.closeHandle_perm inCustody.values isOpen
  have values := (closed.map Handle.value).nodup_iff.mp inCustody.values
  show InCustody ⟨state.kernel.closeHandle handle.value, state.table,
    replaceTask i none state.calls, reaped⟩
  apply inCustody.proceed_call found (Kernel.closeHandle_retains handle.value)
    (List.nodup_cons.mp values).2
  · rw [holds, Multiset.coe_eq_coe.mpr closed, Option.elim_none, Multiset.coe_nil, add_zero,
      add_assoc]
    rfl
  · rw [processBalance, Option.elim_none, Multiset.coe_nil, add_zero]
  · exact inCustody.keys
  · exact inCustody.table
  · intro call isNext
    cases isNext
  · exact ended

end InCustody

namespace InCustody

variable {state next : Processes} {i : Nat}

/-- The map has no entry for a process that has just been created. -/
theorem absent_of_created (inCustody : InCustody state) {pid : Int} {process thread : Handle}
    (isCall : .created pid process thread ∈ state.calls) : pid ∉ state.table.map Prod.fst := by
  intro member
  rcases List.mem_map.mp member with ⟨entry, isEntry, rfl⟩
  have entryOpen : entry.2 ∈ state.kernel.handles :=
    inCustody.handles.mem_of_store (Multiset.mem_coe.mpr (List.mem_map_of_mem isEntry))
  have callOpen : process ∈ state.kernel.handles :=
    inCustody.handles.mem_of_task isCall List.mem_cons_self
  have callRefers : state.kernel.Refers entry.1 process := inCustody.calls _ isCall
  rcases (inCustody.table entry isEntry).inUse entryOpen with
    ⟨serial, entryTarget, entryPid, entryUsed⟩
  rcases callRefers.inUse callOpen with ⟨other, callTarget, callPid, callUsed⟩
  have same : serial = other :=
    inCustody.pids serial other entryUsed callUsed (entryPid.trans callPid.symm)
  apply inCustody.processes.not_mem_store isCall (List.mem_singleton_self process.target.serial)
  have isSettled : entry.2.target.serial ∈
      state.table.map fun entry => entry.2.target.serial :=
    List.mem_map.mpr ⟨entry, isEntry, rfl⟩
  rw [entryTarget, same, ← callTarget] at isSettled
  exact Multiset.mem_add.mpr (Or.inl (Multiset.mem_coe.mpr isSettled))

/-- `spawn_process` stores the handle. -/
theorem store (inCustody : InCustody state) {pid : Int} {process thread : Handle}
    (found : state.calls[i]? = some (.created pid process thread)) :
    InCustody { state.moveTo i (some (.stored pid thread)) with
      table := (pid, process) :: state.table.filter (·.1 ≠ pid) } := by
  have isCall := List.mem_of_getElem? found
  have absent := inCustody.absent_of_created isCall
  have others : state.table.filter (·.1 ≠ pid) = state.table := by
    apply List.filter_eq_self.mpr
    intro entry isEntry
    apply decide_eq_true
    intro same
    exact absent (List.mem_map.mpr ⟨entry, isEntry, same⟩)
  rw [others]
  show InCustody ⟨state.kernel, (pid, process) :: state.table,
    replaceTask i (some (.stored pid thread)) state.calls, state.reaped⟩
  apply inCustody.proceed_call found (.refl _) inCustody.values
  · rw [List.map_cons, ← Multiset.cons_coe, Call.handles, ← Multiset.cons_coe process,
      ← Multiset.singleton_add, ← Multiset.singleton_add, Option.elim_some, Call.handles]
    abel
  · rw [settled, settled, List.map_cons, ← Multiset.cons_coe, ← Multiset.singleton_add,
      Option.elim_some, Call.custodian, Call.custodian, Multiset.coe_nil, Multiset.coe_singleton]
    abel
  · exact List.nodup_cons.mpr ⟨absent, inCustody.keys⟩
  · exact List.forall_mem_cons.mpr ⟨inCustody.calls _ isCall, inCustody.table⟩
  · rintro call ⟨⟩
    trivial
  · exact inCustody.reaped

/-- `wait_process` takes the handle out of the map. -/
theorem take (inCustody : InCustody state) {pid : Int} {process : Handle}
    (found : state.calls[i]? = some (.wait pid))
    (stored : state.table.lookup pid = some process) :
    InCustody { state.moveTo i (some (.taken pid process)) with
      table := state.table.filter (·.1 ≠ pid) } := by
  have perm := table_perm inCustody.keys stored
  have refers : state.kernel.Refers pid process :=
    inCustody.table _ (perm.mem_iff.mpr List.mem_cons_self)
  show InCustody ⟨state.kernel, state.table.filter (·.1 ≠ pid),
    replaceTask i (some (.taken pid process)) state.calls, state.reaped⟩
  apply inCustody.proceed_call found (.refl _) inCustody.values
  · rw [Multiset.coe_eq_coe.mpr (perm.map Prod.snd), List.map_cons, ← Multiset.cons_coe,
      ← Multiset.singleton_add, Option.elim_some, Call.handles, Call.handles, Multiset.coe_nil,
      Multiset.coe_singleton]
    abel
  · rw [settled, settled,
      Multiset.coe_eq_coe.mpr (perm.map fun entry => entry.2.target.serial), List.map_cons,
      ← Multiset.cons_coe, ← Multiset.singleton_add, Option.elim_some, Call.custodian,
      Call.custodian, Multiset.coe_nil, Multiset.coe_singleton]
    abel
  · exact inCustody.keys.sublist (List.filter_sublist.map _)
  · exact fun entry isEntry => inCustody.table entry (List.mem_of_mem_filter isEntry)
  · rintro call ⟨⟩
    exact refers
  · exact inCustody.reaped

/-- `wait_process` closes the handle and returns the exit code. -/
theorem reap (inCustody : InCustody state) {pid code : Int} {process : Handle}
    (found : state.calls[i]? = some (.read pid process code)) :
    InCustody { state.moveTo i none with
      kernel := state.kernel.closeHandle process.value
      reaped := ⟨process.target.serial, pid, code⟩ :: state.reaped } := by
  rcases inCustody.calls _ (List.mem_of_getElem? found) with ⟨⟨serial, bound, target, same⟩, ended⟩
  rw [target] at ended
  apply inCustody.proceed_close found rfl
  · rw [settled, settled, List.map_cons, ← Multiset.cons_coe, ← Multiset.singleton_add,
      Call.custodian, Multiset.coe_singleton]
    abel
  · rw [List.forall_mem_cons, target]
    exact ⟨⟨bound, same, ended⟩, inCustody.reaped⟩

/-- The exit code of a process is read. -/
theorem read (inCustody : InCustody state) {pid code : Int} {process : Handle}
    (found : state.calls[i]? = some (.signalled pid process))
    (read : state.kernel.exitCodeOf process.value = some code) :
    InCustody (state.moveTo i (some (.read pid process code))) := by
  have isCall := List.mem_of_getElem? found
  have refers : state.kernel.Refers pid process := inCustody.calls _ isCall
  have isOpen : process ∈ state.kernel.handles :=
    inCustody.handles.mem_of_task isCall (List.mem_singleton_self process)
  apply inCustody.proceed_alone found rfl rfl
  rintro call ⟨⟩
  refine ⟨refers, ?_⟩
  rcases refers with ⟨serial, -, target, -⟩
  rwa [Kernel.exitCodeOf_value inCustody.values isOpen target, ← Target.serial.eq_1 serial,
    ← target] at read

/-- An opened handle is used. -/
theorem use (inCustody : InCustody state) {process : Handle} {terminates : Bool}
    (found : state.calls[i]? = some (.opened process terminates)) {kernel : Kernel}
    (retains : state.kernel.Retains kernel) (handles : kernel.handles = state.kernel.handles) :
    InCustody { state.moveTo i (some (.used process)) with kernel := kernel } := by
  show InCustody ⟨kernel, state.table, replaceTask i (some (.used process)) state.calls,
    state.reaped⟩
  apply inCustody.proceed_call found retains
  · rw [handles]
    exact inCustody.values
  · rw [handles]
    rfl
  · rfl
  · exact inCustody.keys
  · exact inCustody.table
  · rintro call ⟨⟩
    trivial
  · exact inCustody.reaped_retains retains

theorem proceed (inCustody : InCustody state) (taken : state.proceed i = some next) :
    InCustody next := by
  rw [Processes.proceed] at taken
  cases found : state.calls[i]? with
  | none =>
      rw [found] at taken
      cases taken
  | some call =>
      rw [found] at taken
      cases call with
      | created pid process thread =>
          cases taken
          exact inCustody.store found
      | stored pid thread =>
          cases taken
          exact inCustody.proceed_close found rfl (add_zero _).symm inCustody.reaped
      | wait pid =>
          dsimp only at taken
          cases stored : state.table.lookup pid with
          | none =>
              rw [stored] at taken
              cases taken
              exact inCustody.proceed_alone found rfl rfl fun call isNext => by cases isNext
          | some process =>
              rw [stored] at taken
              cases taken
              exact inCustody.take found stored
      | taken pid process =>
          dsimp only at taken
          split at taken
          · cases taken
            apply inCustody.proceed_alone found rfl rfl
            have refers : state.kernel.Refers pid process :=
              inCustody.calls _ (List.mem_of_getElem? found)
            rintro call ⟨⟩
            exact refers
          · cases taken
      | signalled pid process =>
          rcases Option.map_eq_some_iff.mp taken with ⟨code, read, rfl⟩
          exact inCustody.read found read
      | read pid process code =>
          cases taken
          exact inCustody.reap found
      | opened process terminates =>
          cases taken
          cases terminates with
          | false => exact inCustody.use found (.refl _) rfl
          | true =>
              exact inCustody.use found (Kernel.terminate_retains _) (Kernel.terminate_handles _)
      | used process =>
          cases taken
          exact inCustody.proceed_close found rfl (add_zero _).symm inCustody.reaped

end InCustody

/-! ## Every run -/

namespace InCustody

variable {state next : Processes}

theorem fresh : InCustody .fresh where
  values := List.nodup_nil
  handles := ⟨Multiset.nodup_zero, rfl⟩
  processes := ⟨Multiset.coe_nodup.mpr List.nodup_range, rfl⟩
  pids left right leftUsed := by
    have bound := (Kernel.inUse_iff.mp leftUsed).1
    cases bound
  keys := List.nodup_nil
  table := List.forall_mem_nil _
  calls := List.forall_mem_nil _
  reaped := List.forall_mem_nil _

theorem exit (inCustody : InCustody state) (serial : Nat) (code : Int) :
    InCustody { state with kernel := state.kernel.exit serial code } where
  values := inCustody.values
  handles := inCustody.handles
  processes := inCustody.processes
  pids left right leftUsed rightUsed same :=
    have retains := state.kernel.exit_retains serial code
    inCustody.pids left right (retains.inUse left leftUsed) (retains.inUse right rightUsed) same
  keys := inCustody.keys
  table := inCustody.table
  calls call member :=
    (inCustody.calls call member).later (state.kernel.exit_retains serial code).later
  reaped := inCustody.reaped_retains (Kernel.exit_retains serial code)

/-- A call begins that holds no handle. -/
theorem wait (inCustody : InCustody state) (pid : Int) :
    InCustody { state with calls := .wait pid :: state.calls } where
  values := inCustody.values
  handles := inCustody.handles.begin (.wait pid) inCustody.handles.nodup
  processes := inCustody.processes.begin (.wait pid) inCustody.processes.nodup
  pids := inCustody.pids
  keys := inCustody.keys
  table := inCustody.table
  calls := List.forall_mem_cons.mpr ⟨trivial, inCustody.calls⟩
  reaped := inCustody.reaped

/-- A new handle is none of the open ones. -/
theorem nodup_openHandle (inCustody : InCustody state) {handle : Handle}
    (isFresh : state.kernel.isFresh handle.value = true) :
    ((state.kernel.openHandle handle).handles.map Handle.value).Nodup :=
  List.nodup_cons.mpr ⟨Kernel.isFresh_iff.mp isFresh, inCustody.values⟩

theorem openProcess (inCustody : InCustody state) {pid : Int} {value : Nat} {terminates : Bool}
    (taken : state.openProcess pid value terminates = some next) : InCustody next := by
  rw [Processes.openProcess] at taken
  split at taken
  next isFresh =>
    rcases Option.map_eq_some_iff.mp taken with ⟨serial, found, rfl⟩
    have retains : state.kernel.Retains (state.kernel.openHandle ⟨value, .process serial⟩) :=
      Kernel.openHandle_retains (Kernel.withPid_eq_some found).1
    have values := @nodup_openHandle _ inCustody ⟨value, .process serial⟩ isFresh
    exact {
      values := values
      handles := inCustody.handles.begin (.opened ⟨value, .process serial⟩ terminates)
        (Multiset.coe_nodup.mpr values.of_map)
      processes := inCustody.processes.begin (.opened ⟨value, .process serial⟩ terminates)
        inCustody.processes.nodup
      pids := fun left right leftUsed rightUsed =>
        inCustody.pids left right (retains.inUse left leftUsed) (retains.inUse right rightUsed)
      keys := inCustody.keys
      table := inCustody.table
      calls := List.forall_mem_cons.mpr ⟨trivial, inCustody.calls⟩
      reaped := inCustody.reaped }
  next => cases taken

theorem spawnProcess (inCustody : InCustody state) {pid : Int} {process thread : Nat}
    (taken : state.spawnProcess pid process thread = some next) : InCustody next := by
  rw [Processes.spawnProcess] at taken
  split at taken
  next guard =>
    cases taken
    rcases guard with ⟨unused, freshProcess, freshThread, differ⟩
    have unused := Option.isNone_iff_eq_none.mp unused
    have later := state.kernel.createProcess_later pid process thread
    have values : (process :: thread :: state.kernel.handles.map Handle.value).Nodup := by
      rw [List.nodup_cons, List.nodup_cons, List.mem_cons, not_or]
      exact ⟨⟨differ, Kernel.isFresh_iff.mp freshProcess⟩, Kernel.isFresh_iff.mp freshThread,
        inCustody.values⟩
    have range : (↑[state.kernel.created] + ↑(List.range state.kernel.created) : Multiset Nat) =
        ↑(List.range (state.kernel.created + 1)) := by
      rw [List.range_succ, ← Multiset.coe_add, add_comm]
    have handles := inCustody.handles.begin
      (.created pid ⟨process, .process state.kernel.created⟩ ⟨thread, .thread state.kernel.created⟩)
      (Multiset.coe_nodup.mpr (List.Nodup.of_map (f := Handle.value) values))
    have processes := inCustody.processes.begin
      (.created pid ⟨process, .process state.kernel.created⟩ ⟨thread, .thread state.kernel.created⟩)
      (by
        rw [Call.custodian, Target.serial, range]
        exact Multiset.coe_nodup.mpr List.nodup_range)
    rw [Call.custodian, Target.serial, range] at processes
    have refers : (state.kernel.createProcess pid process thread).Refers pid
        ⟨process, .process state.kernel.created⟩ :=
      ⟨state.kernel.created, Nat.lt_succ_self _, rfl, by simp⟩
    refine ⟨values, handles, processes, ?_, inCustody.keys, ?_, ?_, ?_⟩
    · intro left right leftUsed rightUsed same
      rw [Kernel.createProcess_pid, Kernel.createProcess_pid] at same
      rcases Kernel.inUse_of_createProcess leftUsed with rfl | ⟨leftBefore, leftOld⟩
      · rcases Kernel.inUse_of_createProcess rightUsed with rfl | ⟨rightBefore, rightOld⟩
        · rfl
        · rw [if_pos rfl, if_neg rightOld] at same
          exact absurd same.symm (Kernel.withPid_eq_none unused rightBefore)
      · rcases Kernel.inUse_of_createProcess rightUsed with rfl | ⟨rightBefore, rightOld⟩
        · rw [if_pos rfl, if_neg leftOld] at same
          exact absurd same (Kernel.withPid_eq_none unused leftBefore)
        · rw [if_neg leftOld, if_neg rightOld] at same
          exact inCustody.pids left right leftBefore rightBefore same
    · exact fun entry isEntry => (inCustody.table entry isEntry).later later
    · exact List.forall_mem_cons.mpr
        ⟨refers, fun call member => (inCustody.calls call member).later later⟩
    · intro child member
      rcases inCustody.reaped child member with ⟨bound, childPid, ended⟩
      exact ⟨Nat.lt_succ_of_lt bound, (later.pid _ bound).trans childPid,
        later.exitCode _ bound _ ended⟩
  next => cases taken

theorem invariant : processCalls.Invariant InCustody where
  initial := by
    rintro state rfl
    exact fresh
  step := by
    intro state action next inCustody taken
    cases action with
    | spawnProcess pid process thread => exact inCustody.spawnProcess taken
    | waitProcess pid =>
        cases taken
        exact inCustody.wait pid
    | openProcess pid value terminates => exact inCustody.openProcess taken
    | proceed i => exact inCustody.proceed taken
    | exit serial code =>
        simp only [processCalls, Processes.step] at taken
        split at taken
        · cases taken
          exact inCustody.exit serial code
        · cases taken

end InCustody

/-- However the steps of the calls are interleaved: the values of the open handles are distinct,
each open handle is held exactly once, by the map or by one call in progress, and a value that a
call or the map holds is that of the handle it was given for.  No handle is closed twice, used
after it was closed or forgotten. -/
theorem handles_owned (state : Processes) (reachable : processCalls.Reachable state) :
    (state.kernel.handles.map Handle.value).Nodup ∧
      (state.table.map Prod.snd ++ state.calls.flatMap Call.handles).Perm state.kernel.handles ∧
      ∀ handle ∈ state.table.map Prod.snd ++ state.calls.flatMap Call.handles,
        state.kernel.handles.find? (·.value = handle.value) = some handle := by
  have inCustody := InCustody.invariant.of_reachable reachable
  have owned : (state.table.map Prod.snd ++ state.calls.flatMap Call.handles).Perm
      state.kernel.handles := by
    rw [← Multiset.coe_eq_coe, ← Multiset.coe_add]
    exact inCustody.handles.covers
  refine ⟨inCustody.values, owned, fun handle isHeld => ?_⟩
  exact Kernel.find_value inCustody.values (owned.mem_iff.mp isHeld)

/-- However the steps of the calls are interleaved: every process that was created has its handle
in the map, or with one call in progress, or has been waited for, and that only once; an entry of
the map leads from a pid to the process that was given it; and what `wait_process` returned for a
pid is the exit code of the process that was given it. -/
theorem children_waitedOnce (state : Processes) (reachable : processCalls.Reachable state) :
    (state.table.map (fun entry => entry.2.target.serial) ++
        state.reaped.map Reaped.serial ++ state.calls.flatMap Call.custodian).Perm
          (List.range state.kernel.created) ∧
      (∀ entry ∈ state.table, ∃ serial,
        state.kernel.processOf entry.2.value = some serial ∧
          state.kernel.pid serial = entry.1) ∧
      ∀ child ∈ state.reaped, state.kernel.pid child.serial = child.pid ∧
        state.kernel.exitCode child.serial = some child.exitCode := by
  have inCustody := InCustody.invariant.of_reachable reachable
  refine ⟨?_, ?_, fun child member => (inCustody.reaped child member).2⟩
  · rw [← Multiset.coe_eq_coe, ← Multiset.coe_add, ← Multiset.coe_add]
    exact inCustody.processes.covers
  · intro entry isEntry
    rcases inCustody.table entry isEntry with ⟨serial, -, target, same⟩
    have isOpen : entry.2 ∈ state.kernel.handles :=
      inCustody.handles.mem_of_store (Multiset.mem_coe.mpr (List.mem_map_of_mem isEntry))
    exact ⟨serial, Kernel.processOf_value inCustody.values isOpen target, same⟩

/-- Two calls wait for a process; its pid and the values of its handles are given to another
process before the second of them looks into the map. -/
def race : List Action :=
  [.spawnProcess 7 4 8, .proceed 0, .proceed 0, .waitProcess 7, .waitProcess 7, .proceed 0,
    .exit 0 3, .proceed 0, .proceed 0, .proceed 0, .spawnProcess 7 4 8, .proceed 1, .proceed 0]

theorem handles_owned_race : ∃ state, processCalls.run .fresh race = some state ∧
    (state.kernel.handles.map Handle.value).Nodup ∧
      (state.table.map Prod.snd ++ state.calls.flatMap Call.handles).Perm state.kernel.handles ∧
      ∀ handle ∈ state.table.map Prod.snd ++ state.calls.flatMap Call.handles,
        state.kernel.handles.find? (·.value = handle.value) = some handle :=
  ⟨_, rfl, handles_owned _
    ⟨_, rfl, Machine.reaches_of_run (show processCalls.run .fresh race = some _ from rfl)⟩⟩

theorem children_waitedOnce_race : ∃ state, processCalls.run .fresh race = some state ∧
    (state.table.map (fun entry => entry.2.target.serial) ++
        state.reaped.map Reaped.serial ++ state.calls.flatMap Call.custodian).Perm
          (List.range state.kernel.created) ∧
      (∀ entry ∈ state.table, ∃ serial,
        state.kernel.processOf entry.2.value = some serial ∧
          state.kernel.pid serial = entry.1) ∧
      ∀ child ∈ state.reaped, state.kernel.pid child.serial = child.pid ∧
        state.kernel.exitCode child.serial = some child.exitCode :=
  ⟨_, rfl, children_waitedOnce _
    ⟨_, rfl, Machine.reaches_of_run (show processCalls.run .fresh race = some _ from rfl)⟩⟩

end Cllama.Platform.Windows
