import Cllama.Core.Routing

/-!
# The model files of the registered runners

A runner started on demand serves the file that its name resolves to, but the registry is
keyed by the name as the client spelled it.  Two spellings of one file have two entries
and two processes.  This module says from which requests that comes.
-/

namespace Cllama.Core.RunnerMgr

open Cllama.Library Cllama.Platform

variable {os : Os} {codec : Codec}

/-- No two entries have one model file. -/
def PathsDistinct (system : System) : Prop :=
  ∀ left right l r, Entry system.manager.runners left l →
    Entry system.manager.runners right r → l.info.modelPath = r.info.modelPath → left = right

/-- Calls that start runners on demand only. -/
def Call.OnDemand : Call → Prop
  | .startRunner _ _ _ _ => False
  | _ => True

/-- The name for which a call starts a runner if there is none. -/
def Call.demandedName : Call → Option Bytes
  | .start modelName => some modelName
  | call => call.proxiedName

/-! ## The registry after an operation -/

/-- What an operation does to the registry: entries go, or one is added, under the demanded
name and with the file that it resolves to. -/
inductive Demanded (name : Option Bytes) (system next : System) : Prop where
  | kept (entries : ∀ other r, Entry next.manager.runners other r →
      Entry system.manager.runners other r)
  | added (modelName : Bytes) (r : Runner) (isName : name = some modelName)
      (absent : find modelName system = none)
      (path : r.info.modelPath = resolvePath system.manager modelName)
      (runners : next.manager.runners = system.manager.runners.insert modelName r)

theorem Demanded.of_runners_eq {name : Option Bytes} {system next : System}
    (runners : next.manager.runners = system.manager.runners) : Demanded name system next := by
  apply Demanded.kept
  intro other r entry
  rwa [runners] at entry

/-- The registry alone matters. -/
theorem Demanded.congr {name : Option Bytes} {system next after : System}
    (demanded : Demanded name system next)
    (runners : after.manager.runners = next.manager.runners) : Demanded name system after := by
  cases demanded with
  | kept entries =>
      apply Demanded.kept
      rwa [runners]
  | added modelName r isName absent path inserted =>
      exact .added modelName r isName absent path (runners.trans inserted)

theorem spawnRunner_modelPath {name binary modelPath : Bytes} {port : Int} {system : System}
    {r : Runner} (spawned : (spawnRunner os name binary modelPath port system).1 = some r) :
    r.info.modelPath = modelPath := by
  rw [spawnRunner] at spawned
  dsimp only at spawned
  split at spawned
  · cases spawned
  · split at spawned
    · cases spawned
      rfl
    · cases spawned

/-- A new runner serves the file that its name resolves to. -/
theorem getOrStart_modelPath {modelName : Bytes} {system : System} {r : Runner}
    (absent : find modelName system = none)
    (got : (getOrStart os modelName system).1 = some (some r)) :
    r.info.modelPath = resolvePath system.manager modelName := by
  rw [getOrStart, absent] at got
  dsimp only at got
  split at got
  · cases got
  · cases got
  · split at got
    · cases got
    · exact spawnRunner_modelPath (Option.some.inj got)

theorem getOrStart_demanded (modelName : Bytes) (system : System) :
    Demanded (some modelName) system (getOrStart os modelName system).2 := by
  rcases @getOrStart_cases os modelName system with
    ⟨r, -, reused⟩ | ⟨absent, ⟨-, unstarted⟩ | ⟨r, got, started, -⟩⟩
  · rw [reused]
    exact .of_runners_eq rfl
  · exact .of_runners_eq unstarted.runners
  · exact .added modelName r rfl absent (getOrStart_modelPath absent got) started.runners

theorem proxy_demanded {α : Type} (modelName path : Bytes) (body : Json)
    (reply : Http.Exchange → CLlamaResult α) (system : System) :
    Demanded (some modelName) system (proxy os codec modelName path body reply system).2 := by
  have demanded := @getOrStart_demanded os modelName system
  rw [proxy]
  generalize getOrStart os modelName system = result at demanded ⊢
  rcases result with ⟨_ | _ | r, next⟩
  · exact demanded
  · exact demanded
  · dsimp only
    cases codec.dump body with
    | none => exact demanded
    | some text => exact demanded.congr rfl

theorem perform_demanded {call : Call} (onDemand : call.OnDemand) (system : System) :
    Demanded call.demandedName system (perform os codec system call) := by
  cases call with
  | registerRunnerBinary modelName binary => exact .of_runners_eq rfl
  | registerRunnerType typeName binary => exact .of_runners_eq rfl
  | start modelName =>
      rw [perform, start_snd]
      exact getOrStart_demanded modelName system
  | startRunner name binary type path => cases onDemand
  | stop name =>
      apply Demanded.kept
      intro other r entry
      rw [Entry, perform, stop_runners] at entry
      split at entry
      · cases entry
      · exact entry
  | stopAll =>
      apply Demanded.kept
      intro other r entry
      simp [perform, stopAll, Entry] at entry
  | generateCompletion modelName prompt opts => exact proxy_demanded modelName _ _ _ system
  | chatCompletion modelName messages opts => exact proxy_demanded modelName _ _ _ system
  | streamCompletion modelName prompt opts onToken => exact proxy_demanded modelName _ _ _ system
  | streamChat modelName messages opts onToken => exact proxy_demanded modelName _ _ _ system
  | generateEmbeddings modelName input => exact proxy_demanded modelName _ _ _ system
  | health modelName =>
      rw [perform, health]
      cases find modelName system <;> exact .of_runners_eq rfl
  | listRunners => exact .of_runners_eq rfl

/-! ## Distinct files -/

/-- A name has an entry, or resolves to a file that no entry has. -/
def FreshPath (system : System) (modelName : Bytes) : Prop :=
  find modelName system = none → ∀ other r, Entry system.manager.runners other r →
    r.info.modelPath ≠ resolvePath system.manager modelName

/-- With a new entry, the files are distinct exactly when they were and the new one is not
among them. -/
theorem pathsDistinct_insert {system next : System} {modelName : Bytes} {r : Runner}
    (absent : find modelName system = none)
    (runners : next.manager.runners = system.manager.runners.insert modelName r) :
    PathsDistinct next ↔ PathsDistinct system ∧
      ∀ other o, Entry system.manager.runners other o → o.info.modelPath ≠ r.info.modelPath := by
  have differs : ∀ other o, Entry system.manager.runners other o → modelName ≠ other := by
    rintro other o entry rfl
    rw [Entry, ← find, absent] at entry
    cases entry
  have isNew : Entry next.manager.runners modelName r := by
    rw [runners]
    exact entry_insert.mpr (Or.inl ⟨rfl, rfl⟩)
  have stays : ∀ other o, Entry system.manager.runners other o →
      Entry next.manager.runners other o := by
    intro other o entry
    rw [runners]
    exact entry_insert.mpr (Or.inr ⟨differs other o entry, entry⟩)
  constructor
  · intro distinct
    constructor
    · intro left right l o leftEntry rightEntry
      exact distinct left right l o (stays left l leftEntry) (stays right o rightEntry)
    · intro other o entry same
      exact differs other o entry
        (distinct modelName other r o isNew (stays other o entry) same.symm)
  · rintro ⟨distinct, fresh⟩ left right l o leftEntry rightEntry same
    rw [runners] at leftEntry rightEntry
    rcases entry_insert.mp leftEntry with ⟨rfl, rfl⟩ | ⟨-, leftOld⟩ <;>
      rcases entry_insert.mp rightEntry with ⟨rfl, rfl⟩ | ⟨-, rightOld⟩
    · rfl
    · exact absurd same.symm (fresh right o rightOld)
    · exact absurd same (fresh left l leftOld)
    · exact distinct left right l o leftOld rightOld same

theorem PathsDistinct.demanded {system next : System} {name : Option Bytes}
    (distinct : PathsDistinct system) (demanded : Demanded name system next)
    (fresh : ∀ modelName, name = some modelName → FreshPath system modelName) :
    PathsDistinct next := by
  cases demanded with
  | kept entries =>
      intro left right l r leftEntry rightEntry
      exact distinct left right l r (entries left l leftEntry) (entries right r rightEntry)
  | added modelName r isName absent path runners =>
      apply (pathsDistinct_insert absent runners).mpr
      refine ⟨distinct, fun other o entry => ?_⟩
      rw [path]
      exact fresh modelName isName absent other o entry

/-- A call for a second spelling of a file that starts a runner gives the file two
entries. -/
theorem not_pathsDistinct_of_started {system : System} {modelName other : Bytes} {r o : Runner}
    (absent : find modelName system = none) (entry : Entry system.manager.runners other o)
    (sameFile : o.info.modelPath = resolvePath system.manager modelName)
    (got : (getOrStart os modelName system).1 = some (some r)) :
    ¬PathsDistinct (getOrStart os modelName system).2 := by
  rcases @getOrStart_cases os modelName system with
    ⟨old, found, -⟩ | ⟨-, ⟨notStarted, -⟩ | ⟨new, isNew, started, -⟩⟩
  · rw [absent] at found
    cases found
  · exact absurd got (notStarted r)
  · intro distinct
    have fresh := ((pathsDistinct_insert absent started.runners).mp distinct).2
    apply fresh other o entry
    rw [sameFile, getOrStart_modelPath absent isNew]

/-! ## Runs -/

/-- All calls of a run start runners on demand only, and each is for a name that has an
entry or resolves to a file that no entry has at that time. -/
def FreshRun (os : Os) (codec : Codec) : System → List Action → Prop
  | _, [] => True
  | system, action :: actions =>
      (∀ call, action = .call call → call.OnDemand ∧
        ∀ modelName, call.demandedName = some modelName → FreshPath system modelName) ∧
      FreshRun os codec (act os codec system action) actions

theorem PathsDistinct.act {system : System} (distinct : PathsDistinct system) {action : Action}
    (fresh : ∀ call, action = .call call → call.OnDemand ∧
      ∀ modelName, call.demandedName = some modelName → FreshPath system modelName) :
    PathsDistinct (act os codec system action) := by
  cases action with
  | elapse => exact distinct
  | call call =>
      rcases fresh call rfl with ⟨onDemand, freshPath⟩
      exact distinct.demanded (perform_demanded onDemand system) freshPath

/-- In every run whose calls start runners on demand only, and never for a second spelling
of a file that is already served, no two entries have one model file at any moment. -/
theorem pathsDistinct_run (os : Os) (codec : Codec) (runnerBinary modelsPath : Bytes)
    (actions : List Action)
    (fresh : FreshRun os codec (.create runnerBinary modelsPath) actions) :
    ∀ past, past <+: actions → PathsDistinct (run os codec runnerBinary modelsPath past) := by
  intro past isPast
  rw [run]
  have distinct : PathsDistinct (.create runnerBinary modelsPath) := by
    intro left right l r leftEntry
    simp [System.create, Entry] at leftEntry
  generalize System.create runnerBinary modelsPath = system at distinct fresh ⊢
  induction past generalizing system actions with
  | nil => exact distinct
  | cons action past ih =>
      rcases isPast with ⟨rest, rfl⟩
      exact ih (past ++ rest) ⟨rest, rfl⟩ _ (distinct.act fresh.1) fresh.2

/-- A system whose first child listens on port 4000 from the fourth system call on, and the
second one on port 4001 from the eighth on. -/
def twoPorts : Os where
  events n := if n = 3 then [(0, .listening)] else if n = 7 then [(1, .listening)] else []
  fork n := n + 5
  freePort n := if n < 4 then 4000 else 4001
  fileExists _ := some true
  response _ := ⟨[], some 200⟩
  boundElsewhere _ _ := false
  pidElsewhere _ _ := false

theorem pathsDistinct_run_twoPorts :
    PathsDistinct (run twoPorts JsonText.reference [] (bytes "/models")
      [.call (.start (bytes "a")), .call (.start (bytes "b"))]) := by
  apply pathsDistinct_run twoPorts JsonText.reference [] (bytes "/models")
    [.call (.start (bytes "a")), .call (.start (bytes "b"))] ?_ _ (List.prefix_refl _)
  refine ⟨fun call isCall => ?_, fun call isCall => ?_, trivial⟩
  · cases isCall
    refine ⟨trivial, fun modelName isName absent other r entry => ?_⟩
    simp [System.create, Entry] at entry
  · cases isCall
    refine ⟨trivial, fun modelName isName absent other r entry => ?_⟩
    cases isName
    have differs : ∀ pair ∈ (run twoPorts JsonText.reference [] (bytes "/models")
        [.call (.start (bytes "a"))]).manager.runners.toList,
        pair.2.info.modelPath ≠ resolvePath (run twoPorts JsonText.reference [] (bytes "/models")
          [.call (.start (bytes "a"))]).manager (bytes "b") := by decide +kernel
    exact differs (other, r) (Std.TreeMap.mem_toList_iff_getElem?_eq_some.mpr entry)

/-- Two spellings of one file are served by two runners. -/
theorem not_pathsDistinct_of_spellings :
    ¬PathsDistinct (run twoPorts JsonText.reference [] (bytes "/models")
      [.call (.start (bytes "m")), .call (.start (bytes "m.gguf"))]) := by
  intro distinct
  have left : Entry (run twoPorts JsonText.reference [] (bytes "/models")
      [.call (.start (bytes "m")), .call (.start (bytes "m.gguf"))]).manager.runners (bytes "m")
      ⟨⟨bytes "m", [], bytes "m", .cllama, 4000, 7, bytes "/models/m.gguf", 3⟩, 4000⟩ := by
    unfold Entry
    decide +kernel
  have right : Entry (run twoPorts JsonText.reference [] (bytes "/models")
      [.call (.start (bytes "m")), .call (.start (bytes "m.gguf"))]).manager.runners
      (bytes "m.gguf")
      ⟨⟨bytes "m.gguf", [], bytes "m", .cllama, 4001, 11, bytes "/models/m.gguf", 7⟩, 4001⟩ := by
    unfold Entry
    decide +kernel
  exact absurd (distinct _ _ _ _ left right rfl) (by decide +kernel)

end Cllama.Core.RunnerMgr
