import Cllama.Core.Consistency

/-!
# Which binary a runner is started with

The binary of a runner may be given in the call, registered for the model or for a type, or
be the default.  `start_runner` asks for the model under the stem of its file and falls
back to the default before it considers the type; `start` asks under the name as it was
spelled.
-/

namespace Cllama.Core.RunnerMgr

open Cllama.Library Cllama.Platform

variable {os : Os}

/-- The name under which `start_runner` knows the model that a name designates. -/
def modelKey (manager : RunnerManager) (name : Bytes) : Bytes :=
  stem (resolvePath manager name)

/-- The binary given, or else that of the model, of the type, or the default. -/
def precedence (manager : RunnerManager) (name runnerBinary runnerType : Bytes) : Bytes :=
  if runnerBinary ≠ [] then runnerBinary
  else
    match manager.modelRunnerMap[modelKey manager name]?, manager.typeRunnerMap[runnerType]? with
    | some binary, _ => binary
    | none, some binary => binary
    | none, none => manager.runnerBinary

/-- `start_runner` selects by precedence, and `start` as it does without binary and type. -/
structure OnePrecedence (manager : RunnerManager) (name runnerBinary runnerType : Bytes) :
    Prop where
  startRunner : effectiveBinary manager runnerBinary runnerType (resolvePath manager name) =
    precedence manager name runnerBinary runnerType
  start : runnerForModel manager name = effectiveBinary manager [] [] (resolvePath manager name)

/-- Without a binary in the call, an empty one for the model meets no type with another, a
model without one meets no type with another than the default, and the name has the entry
of the model. -/
structure Unambiguous (manager : RunnerManager) (name runnerBinary runnerType : Bytes) :
    Prop where
  empty : runnerBinary = [] → manager.modelRunnerMap[modelKey manager name]? = some [] →
    runnerType = [] ∨ binaryForType manager runnerType = []
  unregistered : runnerBinary = [] → manager.modelRunnerMap[modelKey manager name]? = none →
    ∀ binary, manager.typeRunnerMap[runnerType]? = some binary → binary = manager.runnerBinary
  spelling : runnerForModel manager name = runnerForModel manager (modelKey manager name)

theorem runnerForModel_eq (manager : RunnerManager) (name : Bytes) :
    runnerForModel manager name =
      (manager.modelRunnerMap[name]?).getD manager.runnerBinary := by
  rw [runnerForModel, Std.TreeMap.getD_eq_getD_getElem?]

/-- Without a type the binary is that of the model, or the default. -/
theorem effectiveBinary_nil (manager : RunnerManager) (path : Bytes) :
    effectiveBinary manager [] [] path = runnerForModel manager (stem path) := by
  rw [effectiveBinary, if_pos rfl, if_neg (fun both => both.2 rfl)]

theorem effectiveBinary_eq_iff {manager : RunnerManager} (hasDefault : manager.runnerBinary ≠ [])
    (name runnerBinary runnerType : Bytes) :
    effectiveBinary manager runnerBinary runnerType (resolvePath manager name) =
        precedence manager name runnerBinary runnerType ↔
      (runnerBinary = [] → manager.modelRunnerMap[modelKey manager name]? = some [] →
        runnerType = [] ∨ binaryForType manager runnerType = []) ∧
      (runnerBinary = [] → manager.modelRunnerMap[modelKey manager name]? = none →
        ∀ binary, manager.typeRunnerMap[runnerType]? = some binary →
          binary = manager.runnerBinary) := by
  rw [effectiveBinary, precedence]
  by_cases given : runnerBinary = []
  · subst given
    rw [if_pos rfl, if_neg (not_not.mpr rfl : ¬([] : Bytes) ≠ []), runnerForModel_eq, modelKey]
    cases manager.modelRunnerMap[stem (resolvePath manager name)]? with
    | none =>
        rw [Option.getD_none, if_neg fun both => hasDefault both.1]
        cases manager.typeRunnerMap[runnerType]? with
        | none => exact iff_of_true rfl ⟨nofun, nofun⟩
        | some binary =>
            constructor
            · intro same
              refine ⟨nofun, fun _ _ other isOther => ?_⟩
              cases isOther
              exact same.symm
            · intro unambiguous
              exact (unambiguous.2 rfl rfl binary rfl).symm
    | some binary =>
        rw [Option.getD_some]
        by_cases empty : binary = []
        · subst empty
          by_cases untyped : runnerType = []
          · rw [if_neg fun both => both.2 untyped]
            exact iff_of_true rfl ⟨fun _ _ => Or.inl untyped, nofun⟩
          · rw [if_pos ⟨rfl, untyped⟩]
            constructor
            · intro unregistered
              exact ⟨fun _ _ => Or.inr unregistered, nofun⟩
            · intro unambiguous
              exact (unambiguous.1 rfl rfl).resolve_left untyped
        · rw [if_neg fun both => empty both.1]
          refine iff_of_true rfl ⟨fun _ same => ?_, nofun⟩
          exact absurd (Option.some.inj same) empty
  · have notEmpty : ¬(runnerBinary = [] ∧ runnerType ≠ []) := fun both => given both.1
    rw [if_neg given, if_neg notEmpty, if_pos given]
    exact iff_of_true rfl ⟨fun empty => absurd empty given, fun empty => absurd empty given⟩

/-- A runner has the binary it was spawned with. -/
theorem spawnRunner_runnerBinary {name binary modelPath : Bytes} {port : Int} {system : System}
    {r : Runner} (spawned : (spawnRunner os name binary modelPath port system).1 = some r) :
    r.info.runnerBinary = binary := by
  rw [spawnRunner] at spawned
  dsimp only at spawned
  split at spawned
  · cases spawned
  · split at spawned
    · cases spawned
      rfl
    · cases spawned

theorem getOrStart_runnerBinary {modelName : Bytes} {system : System} {r : Runner}
    (absent : find modelName system = none)
    (got : (getOrStart os modelName system).1 = some (some r)) :
    r.info.runnerBinary = runnerForModel system.manager modelName := by
  rw [getOrStart, absent] at got
  dsimp only at got
  split at got
  · cases got
  · cases got
  · split at got
    · cases got
    · exact spawnRunner_runnerBinary (Option.some.inj got)

theorem startRunner_runnerBinary {name binary type path : Bytes} {system : System} {started : Bool}
    (succeeded : (startRunner os name binary type path system).1 = some (.ok started)) :
    ∃ r, find name (startRunner os name binary type path system).2 = some r ∧
      r.info.runnerBinary = effectiveBinary system.manager binary type path := by
  rw [startRunner] at succeeded ⊢
  split at succeeded
  · cases succeeded
  next absent =>
    rw [if_neg absent]
    generalize system.world.exists? os path = checked at succeeded ⊢
    rcases checked with ⟨_ | _ | _, world⟩
    · cases succeeded
    · cases succeeded
    · dsimp only at succeeded ⊢
      split at succeeded
      · cases succeeded
      next positive =>
        rw [if_neg positive]
        have outcome := @spawnRunner_cases os name
          (effectiveBinary system.manager binary type path) path (world.findFreePort os).1
          { system with world := (world.findFreePort os).2 }
        have same := fun r => @spawnRunner_runnerBinary os name
          (effectiveBinary system.manager binary type path) path (world.findFreePort os).1
          { system with world := (world.findFreePort os).2 } r
        generalize spawnRunner os name (effectiveBinary system.manager binary type path) path
          (world.findFreePort os).1 { system with world := (world.findFreePort os).2 } = spawned
          at outcome same succeeded ⊢
        rcases spawned with ⟨_ | r, next⟩
        · cases succeeded
        · rcases outcome with ⟨failed, -⟩ | ⟨other, isOther, -, registers, -⟩
          · cases failed
          · cases isOther
            refine ⟨r, ?_, same r rfl⟩
            rw [find, registers.runners]
            exact Std.TreeMap.getElem?_insert_self

/-- A runner is started with the binary of `effectiveBinary`, or with that of its name; and
this is one precedence exactly when an empty binary or the default does not stand in front
of the type, and the spelling of the name does not matter to the registry. -/
theorem onePrecedence_iff (os : Os) (system : System)
    (hasDefault : system.manager.runnerBinary ≠ [])
    (name runnerName runnerBinary runnerType : Bytes) :
    let path := resolvePath system.manager name
    (∀ started,
        (startRunner os runnerName runnerBinary runnerType path system).1 = some (.ok started) →
          ∃ r, find runnerName (startRunner os runnerName runnerBinary runnerType path system).2 =
              some r ∧
            r.info.runnerBinary = effectiveBinary system.manager runnerBinary runnerType path) ∧
      (∀ r, find name system = none → (getOrStart os name system).1 = some (some r) →
        r.info.runnerBinary = runnerForModel system.manager name) ∧
      (OnePrecedence system.manager name runnerBinary runnerType ↔
        Unambiguous system.manager name runnerBinary runnerType) := by
  intro path
  refine ⟨fun _ => startRunner_runnerBinary, fun _ => getOrStart_runnerBinary, ?_⟩
  have selects := effectiveBinary_eq_iff hasDefault name runnerBinary runnerType
  have spelled := effectiveBinary_nil system.manager path
  constructor
  · intro one
    rcases selects.mp one.startRunner with ⟨empty, unregistered⟩
    exact ⟨empty, unregistered, one.start.trans spelled⟩
  · intro unambiguous
    exact ⟨selects.mpr ⟨unambiguous.empty, unambiguous.unregistered⟩,
      unambiguous.spelling.trans spelled.symm⟩

/-- A manager that knows a binary for a type. -/
def typed : RunnerManager where
  runnerBinary := bytes "cllama-runner"
  modelsPath := bytes "models"
  runners := ∅
  modelRunnerMap := ∅
  typeRunnerMap := (∅ : Std.TreeMap Bytes Bytes).insert (bytes "gpu") (bytes "gpu-runner")

/-- A system in which every runner answers. -/
def answering : Os where
  events _ := [(0, .listening)]
  fork _ := 7
  freePort _ := 4000
  fileExists _ := some true
  response _ := ⟨[], some 200⟩
  boundElsewhere _ _ := false
  pidElsewhere _ _ := false

theorem onePrecedence_iff_typed :
    (find (bytes "r") (startRunner answering (bytes "r") [] [] (resolvePath typed (bytes "m"))
        ⟨.fresh, typed, []⟩).2).map (·.info.runnerBinary) = some (bytes "cllama-runner") ∧
      (OnePrecedence typed (bytes "m") [] [] ↔ Unambiguous typed (bytes "m") [] []) := by
  have selects := onePrecedence_iff answering ⟨.fresh, typed, []⟩ (by decide) (bytes "m")
    (bytes "r") [] []
  rcases selects.1 true (by decide +kernel) with ⟨r, found, binary⟩
  refine ⟨?_, selects.2.2⟩
  rw [found, Option.map_some, binary]
  decide +kernel

/-- The binary of a type is not asked for. -/
theorem not_onePrecedence_of_type :
    ¬OnePrecedence typed (bytes "m") [] (bytes "gpu") := by
  intro one
  exact absurd one.startRunner (by decide +kernel)

end Cllama.Core.RunnerMgr
