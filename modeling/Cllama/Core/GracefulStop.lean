import Cllama.Core.Consistency
import Cllama.Library.JsonText

/-!
# Whether a graceful stop is recognised

A runner that is told to stop is polled for a while, and killed if it is still there.  A
child that has exited is still there for the poll until it is waited for, which only
happens after the poll: every stop takes all the time there is, and ends with a kill.
-/

namespace Cllama.Core.RunnerMgr

open Cllama.Library Cllama.Platform

variable {os : Os}

/-! ## What a stop should do -/

/-- A process is in a table and has exited. -/
def ExitedIn (pid : Int) (table : List Child) : Prop :=
  ∃ child ∈ table, child.pid = pid ∧ child.phase = .exited

/-- The world after a number of polls. -/
def polled (os : Os) : Nat → World → World
  | 0, world => world
  | n + 1, world => polled os n (world.tick os)

/-- The table at a poll of a process that has been told to stop. -/
def tableAt (os : Os) (pid : Int) (world : World) (n : Nat) : List Child :=
  (polled os n (world.killProcess os pid .term)).children

/-- A stop sends a kill. -/
def Kills (os : Os) (pid : Int) (world : World) : Prop :=
  ∃ child, .signalled child .kill ∈ (stopWithTimeout os pid world).log.drop world.log.length

/-- If a process exits within the polls, or has exited before, the loop finds it and the
process is not killed; what is killed is still running after all polls. -/
structure StopsGracefully (os : Os) (pid : Int) (world : World) : Prop where
  exits : (∃ n ≤ 50, ExitedIn pid (tableAt os pid world n)) →
    (awaitExit os 50 pid (world.killProcess os pid .term)).1 = true ∧ ¬Kills os pid world
  kills : Kills os pid world → AliveIn pid (tableAt os pid world 50)

/-- The world after the first pass of `stop_all`. -/
def asked (os : Os) (system : System) : World :=
  (registered system).foldl (fun world r => world.killProcess os r.info.pid .term) system.world

/-- The world after some turns of the second pass. -/
def afterTurns (os : Os) (before : List Runner) (system : System) : World :=
  before.foldl (fun world r => stopWithTimeout os r.info.pid world) (asked os system)

theorem stopAll_world (system : System) :
    (stopAll os system).world = afterTurns os (registered system) system :=
  rfl

/-! ## What polls see -/

theorem mem_tick_of_exited {child : Child} {world : World} (isMember : child ∈ world.children)
    (exited : child.phase = .exited) : child ∈ (world.tick os).children := by
  rw [World.tick]
  dsimp only
  generalize world.children = children at isMember ⊢
  induction os.events world.clock generalizing children with
  | nil => exact isMember
  | cons event events ih =>
      apply ih
      refine List.mem_map.mpr ⟨child, isMember, ?_⟩
      have stays : ∀ taken target, child.advance taken target = child := by
        intro taken target
        rcases child with ⟨process, phase⟩
        cases exited
        rfl
      rw [stays, ite_self]

theorem polled_idle (n : Nat) (world : World) : world.Idle (polled os n world) := by
  induction n generalizing world with
  | zero => exact .refl world
  | succ n ih => exact (World.tick_idle os world).trans (ih _)

/-- A process that has exited stays so. -/
theorem exitedIn_polled {pid : Int} {n m : Nat} (le : n ≤ m) {world : World}
    (exited : ExitedIn pid (polled os n world).children) :
    ExitedIn pid (polled os m world).children := by
  induction m generalizing n world with
  | zero =>
      rw [Nat.le_zero.mp le] at exited
      exact exited
  | succ m ih =>
      cases n with
      | succ n => exact ih (Nat.le_of_succ_le_succ le) exited
      | zero =>
          apply ih (Nat.zero_le m)
          rcases exited with ⟨child, isMember, samePid, hasExited⟩
          exact ⟨child, mem_tick_of_exited isMember hasExited, samePid, hasExited⟩

/-- A process in the table either runs or has exited. -/
theorem aliveIn_iff_not_exitedIn {pid : Int} {world : World} (nodup : world.pids.Nodup)
    (member : pid ∈ world.pids) :
    AliveIn pid world.children ↔ ¬ExitedIn pid world.children := by
  rw [World.pids, World.processes, List.map_map] at nodup member
  constructor
  · rintro ⟨child, isMember, samePid, alive⟩ ⟨other, isOther, otherPid, exited⟩
    rw [List.inj_on_of_nodup_map nodup isMember isOther (samePid.trans otherPid.symm)] at alive
    exact alive exited
  · intro notExited
    rcases List.mem_map.mp member with ⟨child, isMember, samePid⟩
    exact ⟨child, isMember, samePid, fun exited => notExited ⟨child, isMember, samePid, exited⟩⟩

/-- A stop of a child ends with a kill. -/
theorem kills_of_member {pid : Int} {world : World} (member : pid ∈ world.pids) :
    Kills os pid world := by
  have memberTerm : pid ∈ (world.killProcess os pid .term).pids := by
    rwa [World.killProcess_pids]
  rcases @awaitExit_of_member os _ 50 _ memberTerm with ⟨notGone, idle⟩
  rw [Kills, stopWithTimeout]
  generalize awaitExit os 50 pid (world.killProcess os pid .term) = awaited at notGone idle ⊢
  rcases awaited with ⟨gone, next⟩
  cases notGone
  have log : next.log = world.log ++ [.signalled ((world.tick os).childWithPid pid) .term] :=
    idle.log
  refine ⟨(next.tick os).childWithPid pid, ?_⟩
  simp only [Bool.false_eq_true, if_false]
  rw [World.waitProcess_log, World.killProcess_log, log,
    List.append_assoc, List.append_assoc, List.drop_left]
  exact List.mem_cons_of_mem _ List.mem_cons_self

/-- A stop of a child is graceful exactly when there is nothing to recognise: the child is
still running after all polls. -/
theorem stopsGracefully_of_member {pid : Int} {world : World} (nodup : world.pids.Nodup)
    (member : pid ∈ world.pids) :
    StopsGracefully os pid world ↔ AliveIn pid (tableAt os pid world 50) := by
  have memberTerm : pid ∈ (world.killProcess os pid .term).pids := by
    rwa [World.killProcess_pids]
  have samePids : (polled os 50 (world.killProcess os pid .term)).pids = world.pids :=
    (polled_idle 50 _).pids.trans (World.killProcess_pids os pid .term world)
  have alive_iff := @aliveIn_iff_not_exitedIn pid (polled os 50 (world.killProcess os pid .term))
    (samePids ▸ nodup) (samePids ▸ member)
  constructor
  · intro graceful
    exact graceful.kills (kills_of_member member)
  · intro alive
    refine ⟨fun exits => ?_, fun _ => alive⟩
    rcases exits with ⟨n, within, exited⟩
    exact absurd (exitedIn_polled within exited) (alive_iff.mp alive)

/-! ## Stops after a run -/

/-- When its turn comes, a runner is still in the table. -/
theorem member_afterTurns {system : System} (consistent : Consistent system)
    {before after : List Runner} {r : Runner} (turn : registered system = before ++ r :: after) :
    r.info.pid ∈ (afterTurns os before system).pids ∧ (afterTurns os before system).Sound := by
  have members : ∀ r ∈ registered system, r.info.pid ∈ system.world.pids := by
    intro r member
    rcases mem_registered.mp member with ⟨name, entry⟩
    exact consistent.tracks.member entry
  rcases @foldl_killProcess os (registered system) _ members with ⟨-, processes, sound⟩
  have membersAsked : ∀ r ∈ registered system, r.info.pid ∈ (asked os system).pids := by
    rw [asked, World.pids, processes]
    exact members
  have distinct := registered_nodup consistent
  rw [turn, List.map_append, List.map_cons, List.nodup_append] at distinct
  rw [turn] at membersAsked
  rcases @foldl_stopWithTimeout os before (asked os system)
    (fun other isMember => membersAsked other (List.mem_append_left _ isMember)) distinct.1 with
    ⟨-, left, soundAfter⟩
  refine ⟨?_, soundAfter (sound consistent.sound)⟩
  rcases List.mem_map.mp (membersAsked r (List.mem_append_right _ List.mem_cons_self)) with
    ⟨process, isProcess, samePid⟩
  rw [afterTurns, World.pids, left]
  refine List.mem_map.mpr ⟨process, List.mem_filter.mpr ⟨isProcess, ?_⟩, samePid⟩
  rw [samePid]
  exact decide_eq_true fun isBefore =>
    distinct.2.2 r.info.pid isBefore r.info.pid List.mem_cons_self rfl

/-- After every run, `stop` and each turn of `stop_all` recognise a graceful stop exactly
when there is none to recognise: the child is still running after all polls. -/
theorem stopsGracefully_iff (os : Os) (codec : Codec) (runnerBinary modelsPath : Bytes)
    (actions : List Action) :
    let system := run os codec runnerBinary modelsPath actions
    (∀ name r, find name system = some r →
        (stop os name system).world = stopWithTimeout os r.info.pid system.world ∧
          (StopsGracefully os r.info.pid system.world ↔
            AliveIn r.info.pid (tableAt os r.info.pid system.world 50))) ∧
      ∀ before r after, registered system = before ++ r :: after →
        (StopsGracefully os r.info.pid (afterTurns os before system) ↔
          AliveIn r.info.pid (tableAt os r.info.pid (afterTurns os before system) 50)) := by
  intro system
  have consistent : Consistent system := consistent_run runnerBinary modelsPath actions
  constructor
  · intro name r found
    refine ⟨by rw [stop, found], ?_⟩
    exact stopsGracefully_of_member consistent.sound.pids (consistent.tracks.member found)
  · intro before r after turn
    rcases @member_afterTurns os _ consistent _ _ _ turn with ⟨member, sound⟩
    exact stopsGracefully_of_member sound.pids member

/-- A system in which the child exits at the signal. -/
def obedient : Os where
  events n := if n = 3 then [(0, .listening)] else if n = 5 then [(0, .exited)] else []
  fork _ := 7
  freePort _ := 4000
  fileExists _ := some true
  response _ := ⟨[], some 200⟩
  boundElsewhere _ _ := false
  pidElsewhere _ _ := false

/-- A child that exits at once when it is told to is not recognised, and killed. -/
theorem not_stopsGracefully_of_exit :
    ¬StopsGracefully obedient 7
      (run obedient JsonText.reference [] [] [.call (.start (bytes "m"))]).world := by
  have consistent : Consistent
      (run obedient JsonText.reference [] [] [.call (.start (bytes "m"))]) :=
    consistent_run [] [] _
  rw [stopsGracefully_of_member consistent.sound.pids (by decide +kernel)]
  rintro ⟨child, isMember, -, alive⟩
  have exited : ∀ child ∈ tableAt obedient 7
      (run obedient JsonText.reference [] [] [.call (.start (bytes "m"))]).world 50,
      child.phase = .exited := by
    decide +kernel
  exact alive (exited child isMember)

end Cllama.Core.RunnerMgr
