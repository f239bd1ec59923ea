import Cllama.Core.Lifecycle

/-!
# Invariants of the manager over its runs

`Consistent` says that registry and process table match and that the log of signals and
waits is in order.  In a consistent system every operation is a sequence of effects,
whatever the children do in the meantime; effects keep the system consistent, and an
invariant that they keep holds after every run.
-/

namespace Cllama.Core.RunnerMgr

open Cllama.Library Cllama.Platform

/-- The manager knows exactly its own children. -/
structure Consistent (system : System) : Prop where
  sound : system.world.Sound
  tracks : Tracks system.manager.runners system.world.processes

variable {os : Os} {codec : Codec}

theorem consistent_create (runnerBinary modelsPath : Bytes) :
    Consistent (.create runnerBinary modelsPath) :=
  ⟨World.sound_fresh, .empty⟩

namespace Consistent

variable {system next : System}

theorem effect (consistent : Consistent system) (effect : Effect os system next) :
    Consistent next := by
  cases effect with
  | unstarted unstarted =>
      constructor
      · exact unstarted.sound consistent.sound
      · rw [unstarted.runners, unstarted.processes]
        exact consistent.tracks
  | started name r absent started exclusive =>
      rcases started.table with ⟨serial, processes, -⟩
      constructor
      · exact started.sound consistent.sound
      · rw [started.runners, processes]
        exact consistent.tracks.insert absent started.named started.client started.newPid
  | stopped gone stopped =>
      constructor
      · exact stopped.sound consistent.sound
      · rw [stopped.processes]
        exact consistent.tracks.retain stopped.entries

theorem effects (consistent : Consistent system) (effects : Effects os system next) :
    Consistent next := by
  induction effects with
  | refl => exact consistent
  | tail _ effect ih => exact ih.effect effect

end Consistent

/-! ## The effects of operations -/

variable {system : System}

theorem effect_of_idle {next : System} (idle : system.world.Idle next.world)
    (runners : next.manager.runners = system.manager.runners) : Effect os system next :=
  .unstarted (.of_idle idle runners)

theorem getOrStart_effect (modelName : Bytes) :
    Effect os system (getOrStart os modelName system).2 := by
  rcases @getOrStart_cases os modelName system with
    ⟨r, -, reused⟩ | ⟨absent, ⟨-, unstarted⟩ | ⟨r, -, started, exclusive⟩⟩
  · rw [reused]
    exact effect_of_idle (.refl _) rfl
  · exact .unstarted unstarted
  · exact .started modelName r absent started exclusive

theorem start_effect (modelName : Bytes) :
    Effect os system (start os modelName system).2 := by
  rw [start_snd]
  exact getOrStart_effect modelName

theorem startRunner_effect (name binary type path : Bytes) :
    Effect os system (startRunner os name binary type path system).2 := by
  rcases @startRunner_cases os name binary type path system with
    ⟨-, unstarted⟩ | ⟨absent, r, -, started, exclusive⟩
  · exact .unstarted unstarted
  · exact .started name r absent started exclusive

theorem stop_effect (consistent : Consistent system) (name : Bytes) :
    Effect os system (stop os name system) := by
  rw [stop]
  cases found : find name system with
  | none => exact effect_of_idle (.refl _) rfl
  | some r =>
      have member : r.info.pid ∈ system.world.pids := consistent.tracks.member found
      rcases @stopWithTimeout_of_member os _ _ member with ⟨later, processes, sound⟩
      refine .stopped [r.info.pid] ⟨fun other o => ?_, later, ?_, sound⟩
      · rw [entry_erase, List.mem_singleton, and_comm]
        refine and_congr_right fun entry => not_congr ⟨?_, ?_⟩
        · rintro rfl
          have same : o = r := Option.some.inj (Eq.trans entry.symm found)
          rw [same]
        · exact consistent.tracks.distinct name other r o found entry ∘ Eq.symm
      · dsimp only
        rw [processes]
        simp only [List.mem_singleton]

theorem mem_registered {r : Runner} :
    r ∈ registered system ↔ ∃ name, Entry system.manager.runners name r := by
  simp only [registered, List.mem_map, Prod.exists, exists_eq_right, Entry,
    Std.TreeMap.mem_toList_iff_getElem?_eq_some]

/-- No two registered runners have one pid. -/
theorem registered_nodup (consistent : Consistent system) :
    ((registered system).map (·.info.pid)).Nodup := by
  rw [registered, List.map_map]
  refine List.pairwise_map.mpr (Std.TreeMap.distinct_keys_toList.imp_of_mem ?_)
  rintro ⟨left, l⟩ ⟨right, r⟩ leftMember rightMember differs same
  rw [Std.TreeMap.mem_toList_iff_getElem?_eq_some] at leftMember rightMember
  have equal := consistent.tracks.distinct left right l r leftMember rightMember same
  exact differs (equal ▸ Std.ReflCmp.compare_self)

theorem stopAll_effect (consistent : Consistent system) :
    Effect os system (stopAll os system) := by
  have members : ∀ r ∈ registered system, r.info.pid ∈ system.world.pids := by
    intro r member
    rcases mem_registered.mp member with ⟨name, entry⟩
    exact consistent.tracks.member entry
  rcases @foldl_killProcess os (registered system) _ members with ⟨later, processes, sound⟩
  have membersKilled : ∀ r ∈ registered system, r.info.pid ∈
      ((registered system).foldl (fun world r => world.killProcess os r.info.pid .term)
        system.world).pids := by
    rwa [World.pids, processes]
  rcases @foldl_stopWithTimeout os (registered system) _ membersKilled
    (registered_nodup consistent) with ⟨laterStopped, stopped, soundStopped⟩
  refine .stopped ((registered system).map (·.info.pid)) ⟨fun name r => ?_,
    later.trans laterStopped, stopped.trans (by rw [processes]), soundStopped ∘ sound⟩
  constructor
  · intro entry
    simp [stopAll, Entry] at entry
  · rintro ⟨entry, stays⟩
    exact absurd (List.mem_map.mpr ⟨r, mem_registered.mpr ⟨name, entry⟩, rfl⟩) stays

theorem health_effect (name : Bytes) : Effect os system (health os name system).2 := by
  rw [health]
  cases find name system with
  | none => exact effect_of_idle (.refl _) rfl
  | some r => exact effect_of_idle (World.request_idle os r.client _ _ system.world) rfl

theorem proxy_effects {α : Type} (modelName path : Bytes) (body : Json)
    (reply : Http.Exchange → CLlamaResult α) :
    Effects os system (proxy os codec modelName path body reply system).2 := by
  have effect := @getOrStart_effect os system modelName
  rw [proxy]
  generalize getOrStart os modelName system = result at effect ⊢
  rcases result with ⟨_ | _ | r, next⟩
  · exact .single effect
  · exact .single effect
  · dsimp only
    cases codec.dump body with
    | none => exact .single effect
    | some text =>
        have idle := World.request_idle os r.client path text next.world
        exact .tail (.single effect) (effect_of_idle idle rfl)

theorem perform_effects (consistent : Consistent system) (call : Call) :
    Effects os system (perform os codec system call) := by
  cases call with
  | registerRunnerBinary modelName binary => exact .single (effect_of_idle (.refl _) rfl)
  | registerRunnerType typeName binary => exact .single (effect_of_idle (.refl _) rfl)
  | start modelName => exact .single (start_effect modelName)
  | startRunner name binary type path => exact .single (startRunner_effect name binary type path)
  | stop name => exact .single (stop_effect consistent name)
  | stopAll => exact .single (stopAll_effect consistent)
  | generateCompletion modelName prompt opts => exact proxy_effects modelName _ _ _
  | chatCompletion modelName messages opts => exact proxy_effects modelName _ _ _
  | streamCompletion modelName prompt opts onToken => exact proxy_effects modelName _ _ _
  | streamChat modelName messages opts onToken => exact proxy_effects modelName _ _ _
  | generateEmbeddings modelName input => exact proxy_effects modelName _ _ _
  | health modelName => exact .single (health_effect modelName)
  | listRunners => exact .refl

theorem act_effects (consistent : Consistent system) (action : Action) :
    Effects os system (act os codec system action) := by
  cases action with
  | elapse => exact .single (effect_of_idle (World.tick_idle os system.world) rfl)
  | call call => exact perform_effects consistent call

theorem Consistent.act (consistent : Consistent system) (action : Action) :
    Consistent (act os codec system action) :=
  consistent.effects (act_effects consistent action)

theorem consistent_run (runnerBinary modelsPath : Bytes) (actions : List Action) :
    Consistent (run os codec runnerBinary modelsPath actions) := by
  rw [run]
  have start := consistent_create runnerBinary modelsPath
  generalize System.create runnerBinary modelsPath = system at start ⊢
  induction actions generalizing system with
  | nil => exact start
  | cons action actions ih => exact ih _ (start.act action)

/-! ## Starting and stopping -/

/-- A failed start leaves the registry as it was. -/
theorem start_of_error {system : System} {modelName : Bytes} {error : Error}
    (failed : (start os modelName system).1 = some (.error error)) :
    (start os modelName system).2.manager.runners = system.manager.runners := by
  have outcome := @getOrStart_cases os modelName system
  rw [start] at failed ⊢
  generalize getOrStart os modelName system = result at outcome failed ⊢
  rcases outcome with ⟨r, -, rfl⟩ | ⟨-, ⟨-, unstarted⟩ | ⟨r, started, -⟩⟩
  · rfl
  · rcases result with ⟨_ | _ | r, next⟩ <;> exact unstarted.runners
  · rcases result with ⟨outcome, next⟩
    cases started
    cases failed

theorem startRunner_of_error {system : System} {name binary type path : Bytes} {error : Error}
    (failed : (startRunner os name binary type path system).1 = some (.error error)) :
    (startRunner os name binary type path system).2.manager.runners =
      system.manager.runners := by
  rcases @startRunner_cases os name binary type path system with
    ⟨-, unstarted⟩ | ⟨-, r, started, -⟩
  · exact unstarted.runners
  · rw [failed] at started
    cases started

theorem stop_runners (system : System) (name other : Bytes) :
    (stop os name system).manager.runners[other]? =
      if name = other then none else system.manager.runners[other]? := by
  rw [stop]
  cases found : find name system with
  | none =>
      dsimp only
      split
      next same => exact same ▸ found
      next => rfl
  | some r =>
      rw [Std.TreeMap.getElem?_erase]
      simp only [Std.LawfulEqCmp.compare_eq_iff_eq]

/-- After every run of a newly created manager: every entry carries its own name; entries
under different names have different pids; the registered pids are those of the children
not yet waited for; every signal and every wait so far reached a child that had not been
waited for before; and from there a failed start leaves the registry as it is, stopping a
runner erases its entry only, and stopping all of them empties the registry. -/
theorem lifecycle_invariant (os : Os) (codec : Codec) (runnerBinary modelsPath : Bytes)
    (actions : List Action) :
    let system := run os codec runnerBinary modelsPath actions
    (∀ name r, Entry system.manager.runners name r → r.info.name = name) ∧
      (∀ left right l r, Entry system.manager.runners left l →
        Entry system.manager.runners right r → left ≠ right → l.info.pid ≠ r.info.pid) ∧
      (∀ pid, (∃ name r, Entry system.manager.runners name r ∧ r.info.pid = pid) ↔
        ∃ child ∈ system.world.children, child.pid = pid) ∧
      (∀ before event after, system.world.log = before ++ event :: after →
        World.Legal before event) ∧
      (∀ name error, (start os name system).1 = some (.error error) →
        (start os name system).2.manager.runners = system.manager.runners) ∧
      (∀ name binary type path error,
        (startRunner os name binary type path system).1 = some (.error error) →
          (startRunner os name binary type path system).2.manager.runners =
            system.manager.runners) ∧
      (∀ name other, (stop os name system).manager.runners[other]? =
        if name = other then none else system.manager.runners[other]?) ∧
      ∀ name : Bytes, (stopAll os system).manager.runners[name]? = none := by
  intro system
  have consistent : Consistent system := consistent_run runnerBinary modelsPath actions
  refine ⟨consistent.tracks.named, ?_, ?_, ?_, ?_, ?_, ?_, ?_⟩
  · intro left right l r leftEntry rightEntry differs same
    exact differs (consistent.tracks.distinct left right l r leftEntry rightEntry same)
  · intro pid
    rw [consistent.tracks.children pid]
    simp [World.processes]
  · intro before event after split
    exact consistent.sound.orderly.legal split
  · intro name error failed
    exact start_of_error failed
  · intro name binary type path error failed
    exact startRunner_of_error failed
  · exact stop_runners system
  · intro name
    rw [stopAll]
    exact Std.TreeMap.getElem?_emptyc

end Cllama.Core.RunnerMgr
