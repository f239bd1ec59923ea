import Cllama.Core.ModelPaths

/-!
# What the registry says of its runners

An entry is made in one place, `spawn_runner`, from the name, the binary and the file that an
operation hands to it.  So a property of these three holds of every entry after every run, if it
holds of what each operation hands over.
-/

namespace Cllama.Core.RunnerMgr

open Cllama.Library Cllama.Platform

variable {os : Os} {codec : Codec}

/-- What `spawn_runner` is called with. -/
structure Launch where
  name : Bytes
  binary : Bytes
  modelPath : Bytes

/-- A runner that was spawned so, on a free port and with the pid of a fork. -/
structure Launched (os : Os) (launch : Launch) (r : Runner) : Prop where
  name : r.info.name = launch.name
  binary : r.info.runnerBinary = launch.binary
  modelName : r.info.modelName = stem launch.modelPath
  modelPath : r.info.modelPath = launch.modelPath
  client : r.client = r.info.port
  port : 0 < r.info.port ∧ ∃ call, r.info.port = os.freePort call
  pid : 0 < r.info.pid ∧ ∃ call, r.info.pid = os.fork call

/-- What a call hands to `spawn_runner` if it comes to that. -/
def Call.launch (manager : RunnerManager) : Call → Option Launch
  | .startRunner name binary type path =>
      some ⟨name, effectiveBinary manager binary type path, path⟩
  | call => call.demandedName.map fun modelName =>
      ⟨modelName, runnerForModel manager modelName, resolvePath manager modelName⟩

/-- What an operation does to the registry: entries go, or the one is added that was launched. -/
inductive Launching (os : Os) (launch : Option Launch) (system next : System) : Prop where
  | kept (entries : ∀ other r, Entry next.manager.runners other r →
      Entry system.manager.runners other r)
  | added (made : Launch) (r : Runner) (isLaunch : launch = some made)
      (launched : Launched os made r)
      (runners : next.manager.runners = system.manager.runners.insert made.name r)

namespace Launching

variable {launch : Option Launch} {system next after : System}

theorem of_runners_eq (runners : next.manager.runners = system.manager.runners) :
    Launching os launch system next := by
  apply Launching.kept
  intro other r entry
  rwa [runners] at entry

theorem congr (launching : Launching os launch system next)
    (runners : after.manager.runners = next.manager.runners) :
    Launching os launch system after := by
  cases launching with
  | kept entries =>
      apply Launching.kept
      rwa [runners]
  | added made r isLaunch launched inserted =>
      exact .added made r isLaunch launched (runners.trans inserted)

/-- The registry before matters, not the rest of the system. -/
theorem of_runners {before : System} (launching : Launching os launch system next)
    (runners : system.manager.runners = before.manager.runners) :
    Launching os launch before next := by
  cases launching with
  | kept entries =>
      apply Launching.kept
      intro other r entry
      rw [← runners]
      exact entries other r entry
  | added made r isLaunch launched inserted =>
      rw [runners] at inserted
      exact .added made r isLaunch launched inserted

/-- A property of entries that holds of every runner that can be launched. -/
theorem entries {property : Runner → Prop} (launching : Launching os launch system next)
    (before : ∀ name r, Entry system.manager.runners name r → property r)
    (fresh : ∀ made r, launch = some made → Launched os made r → property r) :
    ∀ name r, Entry next.manager.runners name r → property r := by
  intro name r entry
  cases launching with
  | kept entries => exact before name r (entries name r entry)
  | added made r' isLaunch launched runners =>
      rw [runners] at entry
      rcases entry_insert.mp entry with ⟨-, rfl⟩ | ⟨-, old⟩
      · exact fresh made _ isLaunch launched
      · exact before name r old

end Launching

/-! ## Operations -/

theorem spawnProcess_eq (binary : Bytes) (args : List Bytes) (port : Int) (world : World) :
    (world.spawnProcess os binary args port).1 = -1 ∨
      0 < (world.spawnProcess os binary args port).1 ∧
        (world.spawnProcess os binary args port).1 = os.fork world.clock := by
  rw [World.spawnProcess]
  split
  · exact Or.inl rfl
  next valid => exact Or.inr ⟨Int.not_le.mp fun nonpositive => valid (Or.inl nonpositive), rfl⟩

theorem findFreePort_eq (world : World) :
    (world.findFreePort os).1 = 0 ∨
      (world.findFreePort os).1 = os.freePort world.clock := by
  rw [World.findFreePort]
  split
  · exact Or.inl rfl
  · exact Or.inr rfl

theorem spawnRunner_launching (name binary modelPath : Bytes) {port : Int} (system : System)
    (positive : 0 < port) (free : ∃ call, port = os.freePort call) :
    Launching os (some ⟨name, binary, modelPath⟩) system
      (spawnRunner os name binary modelPath port system).2 := by
  have spawned := @spawnProcess_eq os binary
    [bytes "--model", modelPath, bytes "--port", bytes (toString port)] port system.world
  rw [spawnRunner]
  generalize system.world.spawnProcess os binary
    [bytes "--model", modelPath, bytes "--port", bytes (toString port)] port = result at spawned ⊢
  rcases result with ⟨pid, world⟩
  dsimp only at spawned ⊢
  split
  · exact .of_runners_eq rfl
  next nonnegative =>
    rcases spawned with rfl | ⟨pidPositive, isFork⟩
    · exact absurd (by decide) nonnegative
    · split
      · exact .added _ _ rfl ⟨rfl, rfl, rfl, rfl, rfl, ⟨positive, free⟩,
          ⟨pidPositive, system.world.clock, isFork⟩⟩ rfl
      · exact .of_runners_eq rfl

/-- A spawn on a free port, after some other system calls. -/
theorem spawn_launching (name binary modelPath : Bytes) (system : System) (world : World)
    (found : ¬(world.findFreePort os).1 ≤ 0) :
    Launching os (some ⟨name, binary, modelPath⟩) system
      (spawnRunner os name binary modelPath (world.findFreePort os).1
        { system with world := (world.findFreePort os).2 }).2 := by
  have positive := Int.not_le.mp found
  have free : ∃ call, (world.findFreePort os).1 = os.freePort call := by
    rcases @findFreePort_eq os world with none | isFree
    · rw [none] at positive
      exact absurd positive (by decide)
    · exact ⟨world.clock, isFree⟩
  exact (spawnRunner_launching name binary modelPath
    { system with world := (world.findFreePort os).2 } positive free).of_runners rfl

theorem getOrStart_launching (modelName : Bytes) (system : System) :
    Launching os (some ⟨modelName, runnerForModel system.manager modelName,
      resolvePath system.manager modelName⟩) system (getOrStart os modelName system).2 := by
  rw [getOrStart]
  split
  · exact .of_runners_eq rfl
  · dsimp only
    split
    · exact .of_runners_eq rfl
    · exact .of_runners_eq rfl
    · split
      · exact .of_runners_eq rfl
      next found => exact spawn_launching _ _ _ _ _ found

theorem startRunner_launching (name binary type path : Bytes) (system : System) :
    Launching os (some ⟨name, effectiveBinary system.manager binary type path, path⟩) system
      (startRunner os name binary type path system).2 := by
  rw [startRunner]
  split
  · exact .of_runners_eq rfl
  · dsimp only
    split
    · exact .of_runners_eq rfl
    · exact .of_runners_eq rfl
    · split
      · exact .of_runners_eq rfl
      next found =>
        have launching := @spawn_launching os name
          (effectiveBinary system.manager binary type path) path system
          (system.world.exists? os path).2 found
        split
        next next spawned =>
          have same := congrArg Prod.snd spawned
          exact launching.congr (by rw [← same])
        next r next spawned =>
          have same := congrArg Prod.snd spawned
          exact launching.congr (by rw [← same])

theorem proxy_launching {α : Type} (modelName path : Bytes) (body : Json)
    (reply : Http.Exchange → CLlamaResult α) (system : System) :
    Launching os (some ⟨modelName, runnerForModel system.manager modelName,
      resolvePath system.manager modelName⟩) system
        (proxy os codec modelName path body reply system).2 := by
  have launching := @getOrStart_launching os modelName system
  rw [proxy]
  generalize getOrStart os modelName system = result at launching ⊢
  rcases result with ⟨_ | _ | r, next⟩
  · exact launching
  · exact launching
  · dsimp only
    cases codec.dump body with
    | none => exact launching
    | some text => exact launching.congr rfl

theorem perform_launching (call : Call) (system : System) :
    Launching os (call.launch system.manager) system (perform os codec system call) := by
  cases call with
  | registerRunnerBinary modelName binary => exact .of_runners_eq rfl
  | registerRunnerType typeName binary => exact .of_runners_eq rfl
  | start modelName =>
      rw [perform, start_snd]
      exact getOrStart_launching modelName system
  | startRunner name binary type path => exact startRunner_launching name binary type path system
  | stop name =>
      apply Launching.kept
      intro other r entry
      rw [Entry, perform, stop_runners] at entry
      split at entry
      · cases entry
      · exact entry
  | stopAll =>
      apply Launching.kept
      intro other r entry
      simp [perform, stopAll, Entry] at entry
  | generateCompletion modelName prompt opts => exact proxy_launching modelName _ _ _ system
  | chatCompletion modelName messages opts => exact proxy_launching modelName _ _ _ system
  | streamCompletion modelName prompt opts onToken => exact proxy_launching modelName _ _ _ system
  | streamChat modelName messages opts onToken => exact proxy_launching modelName _ _ _ system
  | generateEmbeddings modelName input => exact proxy_launching modelName _ _ _ system
  | health modelName =>
      rw [perform, health]
      cases find modelName system <;> exact .of_runners_eq rfl
  | listRunners => exact .of_runners_eq rfl

/-! ## Settings -/

/-- A manager without its registry. -/
def RunnerManager.settings (manager : RunnerManager) : RunnerManager :=
  { manager with runners := ∅ }

theorem resolvePath_settings (manager : RunnerManager) (name : Bytes) :
    resolvePath manager.settings name = resolvePath manager name := rfl

/-- Calls that register no binary. -/
def Call.KeepsSettings : Call → Prop
  | .registerRunnerBinary _ _ | .registerRunnerType _ _ => False
  | _ => True

theorem spawnRunner_settings (name binary modelPath : Bytes) (port : Int) (system : System) :
    (spawnRunner os name binary modelPath port system).2.manager.settings =
      system.manager.settings := by
  rw [spawnRunner]
  dsimp only
  split
  · rfl
  · split <;> rfl

theorem getOrStart_settings (modelName : Bytes) (system : System) :
    (getOrStart os modelName system).2.manager.settings = system.manager.settings := by
  rw [getOrStart]
  split
  · rfl
  · dsimp only
    split
    · rfl
    · rfl
    · split
      · rfl
      · exact spawnRunner_settings _ _ _ _ _

theorem startRunner_settings (name binary type path : Bytes) (system : System) :
    (startRunner os name binary type path system).2.manager.settings =
      system.manager.settings := by
  rw [startRunner]
  split
  · rfl
  · dsimp only
    split
    · rfl
    · rfl
    · split
      · rfl
      · have same := @spawnRunner_settings os name
          (effectiveBinary system.manager binary type path) path
          ((system.world.exists? os path).2.findFreePort os).1
          { system with world := ((system.world.exists? os path).2.findFreePort os).2 }
        split
        next next spawned => rwa [spawned] at same
        next r next spawned => rwa [spawned] at same

theorem proxy_settings {α : Type} (modelName path : Bytes) (body : Json)
    (reply : Http.Exchange → CLlamaResult α) (system : System) :
    (proxy os codec modelName path body reply system).2.manager.settings =
      system.manager.settings := by
  have same := @getOrStart_settings os modelName system
  rw [proxy]
  generalize getOrStart os modelName system = result at same ⊢
  rcases result with ⟨_ | _ | r, next⟩
  · exact same
  · exact same
  · dsimp only
    cases codec.dump body with
    | none => exact same
    | some text => exact same

theorem perform_settings {call : Call} (keeps : call.KeepsSettings) (system : System) :
    (perform os codec system call).manager.settings = system.manager.settings := by
  cases call with
  | registerRunnerBinary modelName binary => cases keeps
  | registerRunnerType typeName binary => cases keeps
  | start modelName =>
      rw [perform, start_snd]
      exact getOrStart_settings modelName system
  | startRunner name binary type path => exact startRunner_settings name binary type path system
  | stop name =>
      rw [perform, stop]
      cases find name system <;> rfl
  | stopAll => rfl
  | generateCompletion modelName prompt opts => exact proxy_settings modelName _ _ _ system
  | chatCompletion modelName messages opts => exact proxy_settings modelName _ _ _ system
  | streamCompletion modelName prompt opts onToken => exact proxy_settings modelName _ _ _ system
  | streamChat modelName messages opts onToken => exact proxy_settings modelName _ _ _ system
  | generateEmbeddings modelName input => exact proxy_settings modelName _ _ _ system
  | health modelName =>
      rw [perform, health]
      cases find modelName system <;> rfl
  | listRunners => rfl

end Cllama.Core.RunnerMgr
