import Cllama.Platform.Process
import Mathlib.Data.List.Nodup

/-!
# The process table across system calls

What each system call does to the table of processes, to the history and to the log.
The passing of time changes phases only.  `World.Sound` is what the server may rely on
as long as it names its own children: pids and serials are unique, and the log shows no
signal to a child that was already reaped, and no child reaped twice.
-/

namespace Cllama.Platform

open Cllama.Library

variable (os : Os)

theorem mem_drop_of_prefix {α : Type} {left right : List α} (continues : left <+: right)
    {item : α} {start : Nat} (member : item ∈ left.drop start) : item ∈ right.drop start := by
  rcases continues with ⟨rest, rfl⟩
  rw [List.drop_append]
  exact List.mem_append_left _ member

/-! ## Time -/

/-- How far a process has come. -/
def Phase.age : Phase → Nat
  | .starting => 0
  | .listening => 1
  | .draining => 2
  | .exited => 3

/-- A child that has listened, or never will. -/
def Child.Begun (child : Child) : Prop := Phase.listening.age ≤ child.phase.age

/-- A child that does not listen any more, and never will. -/
def Child.Retired (child : Child) : Prop := Phase.draining.age ≤ child.phase.age

/-- Every child of a table is one of an earlier table, perhaps in a later phase. -/
def Aged (earlier later : List Child) : Prop :=
  ∀ child ∈ later, ∃ before ∈ earlier,
    before.toProcess = child.toProcess ∧ before.phase.age ≤ child.phase.age

theorem listeningOn_iff {port : Int} {child : Child} :
    listeningOn port child = true ↔ child.phase = .listening ∧ child.port = port := by
  rw [listeningOn, Bool.and_eq_true, decide_eq_true_iff, decide_eq_true_iff]

theorem Child.Retired.not_listening {child : Child} (retired : child.Retired)
    (listening : child.phase = .listening) : False := by
  rw [Child.Retired, listening] at retired
  exact absurd retired (by decide)

/-- A child that has begun and does not listen on its port is retired. -/
theorem Child.Begun.retired {child : Child} (begun : child.Begun)
    (silent : ¬listeningOn child.port child = true) : child.Retired := by
  rw [Child.Begun] at begun
  rw [Child.Retired]
  cases phase : child.phase with
  | starting =>
      rw [phase] at begun
      exact absurd begun (by decide)
  | listening => exact absurd (listeningOn_iff.mpr ⟨phase, rfl⟩) silent
  | draining => exact Nat.le_refl _
  | exited => exact Nat.le_succ _

namespace Aged

variable {first second third : List Child}

theorem refl (table : List Child) : Aged table table :=
  fun child member => ⟨child, member, rfl, Nat.le_refl _⟩

theorem trans (before : Aged first second) (after : Aged second third) : Aged first third := by
  intro child member
  rcases after child member with ⟨middle, isMiddle, sameMiddle, middleAge⟩
  rcases before middle isMiddle with ⟨earlier, isEarlier, sameEarlier, earlierAge⟩
  exact ⟨earlier, isEarlier, sameEarlier.trans sameMiddle, Nat.le_trans earlierAge middleAge⟩

theorem of_subset (subset : second ⊆ first) : Aged first second :=
  fun child member => ⟨child, subset member, rfl, Nat.le_refl _⟩

theorem append (aged : Aged first second) (children : List Child) :
    Aged (first ++ children) (second ++ children) := by
  intro child member
  rcases List.mem_append.mp member with old | new
  · rcases aged child old with ⟨before, isBefore, same⟩
    exact ⟨before, List.mem_append_left _ isBefore, same⟩
  · exact ⟨child, List.mem_append_right _ new, rfl, Nat.le_refl _⟩

/-- A child with another pid than the last one is one of the others. -/
theorem earlier {last : Child} (aged : Aged (first ++ [last]) second) {child : Child}
    (member : child ∈ second) (other : child.pid ≠ last.pid) :
    ∃ before ∈ first, before.toProcess = child.toProcess ∧ before.phase.age ≤ child.phase.age := by
  rcases aged child member with ⟨before, isBefore, same, age⟩
  rcases List.mem_append.mp isBefore with old | new
  · exact ⟨before, old, same, age⟩
  · rw [List.mem_singleton] at new
    rw [new] at same
    exact absurd (congrArg Process.pid same).symm other

/-- A child that is not in the later table can be left out. -/
theorem leave {last : Child} (aged : Aged (first ++ [last]) second)
    (absent : ∀ child ∈ second, child.pid ≠ last.pid) : Aged first second :=
  fun child member => aged.earlier member (absent child member)

theorem begun (aged : Aged first second) (begun : ∀ child ∈ first, child.Begun) :
    ∀ child ∈ second, child.Begun := by
  intro child member
  rcases aged child member with ⟨before, isBefore, -, age⟩
  exact Nat.le_trans (begun before isBefore) age

end Aged

@[simp] theorem toProcess_advance (taken : Bool) (target : Phase) (child : Child) :
    (child.advance taken target).toProcess = child.toProcess := by
  unfold Child.advance
  split <;> rfl

theorem age_advance (taken : Bool) (target : Phase) (child : Child) :
    child.phase.age ≤ (child.advance taken target).phase.age := by
  rcases child with ⟨process, phase⟩
  cases phase <;> cases target <;> cases taken <;> simp [Child.advance, Phase.age]

theorem map_toProcess_happen (children : List Child) (event : Nat × Phase) :
    (happen children event).map Child.toProcess = children.map Child.toProcess := by
  rw [happen, List.map_map]
  apply List.map_congr_left
  intro child _
  rw [Function.comp_apply]
  split
  · exact toProcess_advance _ _ child
  · rfl

theorem aged_happen (children : List Child) (event : Nat × Phase) :
    Aged children (happen children event) := by
  intro later member
  rcases List.mem_map.mp member with ⟨child, isChild, rfl⟩
  refine ⟨child, isChild, ?_⟩
  split
  · exact ⟨(toProcess_advance _ _ child).symm, age_advance _ _ child⟩
  · exact ⟨rfl, Nat.le_refl _⟩

namespace World

/-- The pids in the table. -/
def pids (world : World) : List Int := world.processes.map Process.pid

/-- The serials in the table. -/
def serials (world : World) : List Nat := world.processes.map Process.serial

/-- No child is new. -/
structure Later (world next : World) : Prop where
  clock : world.clock ≤ next.clock
  aged : Aged world.children next.children

theorem Later.refl (world : World) : world.Later world :=
  ⟨Nat.le_refl _, .refl _⟩

theorem Later.trans {first second third : World} (before : first.Later second)
    (after : second.Later third) : first.Later third :=
  ⟨Nat.le_trans before.clock after.clock, before.aged.trans after.aged⟩

/-- The processes, the log and the number of forks are as before. -/
structure Idle (world next : World) : Prop extends Later world next where
  processes : next.processes = world.processes
  log : next.log = world.log
  forks : next.forks = world.forks
  moments : world.moments <+: next.moments

namespace Idle

variable {first second third : World}

theorem refl (world : World) : world.Idle world :=
  ⟨.refl world, rfl, rfl, rfl, List.prefix_rfl⟩

theorem trans (before : first.Idle second) (after : second.Idle third) : first.Idle third where
  toLater := before.toLater.trans after.toLater
  processes := after.processes.trans before.processes
  log := after.log.trans before.log
  forks := after.forks.trans before.forks
  moments := before.moments.trans after.moments

theorem pids (idle : first.Idle second) : second.pids = first.pids :=
  congrArg (List.map Process.pid) idle.processes

end Idle

theorem tick_processes (world : World) : (world.tick os).processes = world.processes := by
  rw [processes, tick]
  dsimp only
  induction os.events world.clock generalizing world with
  | nil => rfl
  | cons event events ih =>
      rw [List.foldl_cons]
      have rest := ih { world with children := happen world.children event }
      dsimp only at rest
      rw [rest, processes]
      exact map_toProcess_happen world.children event

theorem tick_later (world : World) : world.Later (world.tick os) := by
  refine ⟨Nat.le_succ _, ?_⟩
  rw [tick]
  dsimp only
  generalize world.children = children
  induction os.events world.clock generalizing children with
  | nil => exact .refl children
  | cons event events ih => exact (aged_happen children event).trans (ih _)

theorem tick_idle (world : World) : world.Idle (world.tick os) :=
  ⟨tick_later os world, tick_processes os world, rfl, rfl, List.prefix_append _ _⟩

/-! ## System calls -/

theorem processIsAlive_idle (pid : Int) (world : World) :
    world.Idle (world.processIsAlive os pid).2 :=
  tick_idle os world

theorem exists?_idle (path : Bytes) (world : World) : world.Idle (world.exists? os path).2 :=
  tick_idle os world

theorem request_idle (port : Int) (path body : Bytes) (world : World) :
    world.Idle (world.request os port path body).2 := by
  rw [request]
  split
  · exact tick_idle os world
  · split <;> exact tick_idle os world

/-- Where no other process binds ports, a request is answered by a child that listens on
the port, or fails. -/
theorem request_answerer (own : ∀ call port, os.boundElsewhere call port = false) (port : Int)
    (path body : Bytes) (world : World) :
    (world.request os port path body).1.1 = .nobody ∧
        (world.request os port path body).1.2.status = none ∨
      ∃ child ∈ (world.request os port path body).2.children,
        listeningOn port child = true ∧
        (world.request os port path body).1.1 = .child child.pid := by
  rw [request]
  split
  next child found =>
    exact Or.inr ⟨child, List.mem_of_find?_eq_some found, List.find?_some found, rfl⟩
  next => exact Or.inl (by simp [own])

theorem findFreePort_idle (world : World) : world.Idle (world.findFreePort os).2 := by
  rw [findFreePort]
  split <;> exact tick_idle os world

/-- No child listens on a port that was found. -/
theorem findFreePort_free {world : World} (found : 0 < (world.findFreePort os).1) :
    ∀ child ∈ (world.findFreePort os).2.children,
      ¬listeningOn (world.findFreePort os).1 child = true := by
  intro child member
  rw [findFreePort] at found member ⊢
  split at found
  · exact absurd found (Int.lt_irrefl 0)
  next free =>
    rw [if_neg free] at member ⊢
    rw [not_or, not_or, List.any_eq_true, not_exists] at free
    intro listens
    exact free.2.1 child ⟨member, listens⟩

/-- A process was forked, and is alive in the table at that moment; or the fork failed. -/
theorem spawnProcess_cases (binary : Bytes) (args : List Bytes) (port : Int) (world : World) :
    (world.spawnProcess os binary args port).1 < 0 ∧
        world.Idle (world.spawnProcess os binary args port).2 ∨
      0 < (world.spawnProcess os binary args port).1 ∧
        (world.spawnProcess os binary args port).1 ∉ world.pids ∧
        (world.spawnProcess os binary args port).2.clock = world.clock + 1 ∧
        (world.spawnProcess os binary args port).2.processes = world.processes ++
          [⟨world.forks, (world.spawnProcess os binary args port).1, port⟩] ∧
        Aged (world.children ++
            [⟨⟨world.forks, (world.spawnProcess os binary args port).1, port⟩, .starting⟩])
          (world.spawnProcess os binary args port).2.children ∧
        (world.spawnProcess os binary args port).2.forks = world.forks + 1 ∧
        (world.spawnProcess os binary args port).2.log = world.log ∧
        ∃ table ∈ (world.spawnProcess os binary args port).2.moments.drop world.moments.length,
          ⟨⟨world.forks, (world.spawnProcess os binary args port).1, port⟩, .starting⟩ ∈ table := by
  rw [spawnProcess]
  dsimp only
  split
  · exact Or.inl ⟨Int.negSucc_lt_zero 0, tick_idle os world⟩
  next free =>
    rw [not_or, Int.not_le, tick_processes] at free
    refine Or.inr ⟨free.1, free.2, rfl, ?_, (tick_later os world).aged.append _, rfl, rfl,
      (world.tick os).children ++ [⟨⟨world.forks, os.fork world.clock, port⟩, .starting⟩], ?_, ?_⟩
    · rw [← tick_processes os world]
      simp [processes, tick]
    · simp [tick]
    · simp

theorem childWithPid_isSome {pid : Int} {world : World} (member : pid ∈ world.pids) :
    ∃ process ∈ world.processes, process.pid = pid ∧
      world.childWithPid pid = some process.serial := by
  rcases List.mem_map.mp member with ⟨process, isProcess, same⟩
  rw [childWithPid]
  cases found : world.processes.find? (fun process => decide (process.pid = pid)) with
  | none =>
      have absent := List.find?_eq_none.mp found process isProcess
      exact absurd (decide_eq_true same) absent
  | some other =>
      have same := List.find?_some found
      exact ⟨other, List.mem_of_find?_eq_some found, of_decide_eq_true same, rfl⟩

theorem processIsAlive_of_member {pid : Int} {world : World} (member : pid ∈ world.pids) :
    (world.processIsAlive os pid).1 = true := by
  have memberTicked : pid ∈ (world.tick os).pids := by
    rwa [(tick_idle os world).pids]
  rcases childWithPid_isSome memberTicked with ⟨process, -, -, found⟩
  rw [processIsAlive, found]
  rfl

theorem killProcess_log (pid : Int) (signal : Signal) (world : World) :
    (world.killProcess os pid signal).log =
      world.log ++ [.signalled ((world.tick os).childWithPid pid) signal] :=
  rfl

theorem killProcess_processes (pid : Int) (signal : Signal) (world : World) :
    (world.killProcess os pid signal).processes = world.processes :=
  tick_processes os world

theorem killProcess_pids (pid : Int) (signal : Signal) (world : World) :
    (world.killProcess os pid signal).pids = world.pids :=
  (tick_idle os world).pids

theorem killProcess_later (pid : Int) (signal : Signal) (world : World) :
    world.Later (world.killProcess os pid signal) := by
  rcases tick_later os world with ⟨clock, aged⟩
  exact ⟨clock, aged⟩

theorem waitProcess_log (pid : Int) (world : World) :
    (world.waitProcess os pid).log =
      world.log ++ [.reaped ((world.tick os).childWithPid pid)] :=
  rfl

theorem waitProcess_processes (pid : Int) (world : World) :
    (world.waitProcess os pid).processes = world.processes.filter (·.pid ≠ pid) := by
  rw [← tick_processes os world, processes, processes, List.filter_map]
  rfl

theorem waitProcess_later (pid : Int) (world : World) :
    world.Later (world.waitProcess os pid) := by
  rcases tick_later os world with ⟨clock, aged⟩
  exact ⟨clock, aged.trans (.of_subset List.filter_sublist.subset)⟩

theorem pid_of_waitProcess {pid : Int} {world : World} :
    ∀ child ∈ (world.waitProcess os pid).children, child.pid ≠ pid := by
  intro child member
  have kept : child.toProcess ∈ (world.waitProcess os pid).processes := List.mem_map_of_mem member
  rw [waitProcess_processes, List.mem_filter] at kept
  exact of_decide_eq_true kept.2

/-! ## Soundness -/

/-- An event is legal after others: a signal and a wait reach a child that was not reaped
before. -/
def Legal (before : List Event) : Event → Prop
  | .signalled child _ => ∃ serial, child = some serial ∧ .reaped (some serial) ∉ before
  | .reaped child => ∃ serial, child = some serial ∧ .reaped (some serial) ∉ before

/-- Every event of a log is legal after those before it. -/
inductive Orderly : List Event → Prop where
  | nil : Orderly []
  | concat {log : List Event} {event : Event} :
      Orderly log → Legal log event → Orderly (log ++ [event])

theorem Orderly.legal {log : List Event} (orderly : Orderly log) {before after : List Event}
    {event : Event} (split : log = before ++ event :: after) : Legal before event := by
  induction orderly generalizing after with
  | nil => simp at split
  | @concat log last orderly legal ih =>
      rcases List.eq_nil_or_concat after with rfl | ⟨shorter, final, rfl⟩
      · rcases List.append_inj' split rfl with ⟨rfl, same⟩
        cases same
        exact legal
      · have cut : log ++ [last] = (before ++ event :: shorter) ++ [final] := by
          rw [split, List.concat_eq_append, List.append_assoc, List.cons_append]
        exact ih (List.append_inj' cut rfl).1

/-- What the server may rely on. -/
structure Sound (world : World) : Prop where
  pids : world.pids.Nodup
  serials : world.serials.Nodup
  spawned : ∀ serial ∈ world.serials, serial < world.forks
  reaped : ∀ serial, .reaped (some serial) ∈ world.log →
    serial < world.forks ∧ serial ∉ world.serials
  orderly : Orderly world.log

theorem sound_fresh : fresh.Sound :=
  ⟨List.nodup_nil, List.nodup_nil, List.forall_mem_nil _, fun _ => by simp [fresh], .nil⟩

namespace Sound

variable {os} {world next : World}

theorem of_idle (sound : world.Sound) (idle : world.Idle next) : next.Sound := by
  rcases sound with ⟨pids, serials, spawned, reaped, orderly⟩
  rcases idle with ⟨-, sameProcesses, sameLog, sameForks, -⟩
  constructor
  · rwa [World.pids, sameProcesses]
  · rwa [World.serials, sameProcesses]
  · rwa [World.serials, sameProcesses, sameForks]
  · rwa [World.serials, sameProcesses, sameForks, sameLog]
  · rwa [sameLog]

theorem spawnProcess (sound : world.Sound) (binary : Bytes) (args : List Bytes) (port : Int) :
    (world.spawnProcess os binary args port).2.Sound := by
  rcases spawnProcess_cases os binary args port world with
    ⟨-, idle⟩ | ⟨-, free, -, processes, -, forks, log, -⟩
  · exact sound.of_idle idle
  · have newSerial : world.forks ∉ world.serials :=
      fun member => Nat.lt_irrefl _ (sound.spawned _ member)
    constructor
    · rw [World.pids, processes, List.map_append]
      exact sound.pids.append (List.nodup_singleton _) (List.disjoint_singleton.mpr free)
    · rw [World.serials, processes, List.map_append]
      exact sound.serials.append (List.nodup_singleton _) (List.disjoint_singleton.mpr newSerial)
    · rw [World.serials, processes, forks, List.map_append, List.forall_mem_append]
      exact ⟨fun serial member => Nat.lt_succ_of_lt (sound.spawned serial member),
        List.forall_mem_singleton.mpr (Nat.lt_succ_self _)⟩
    · intro serial member
      rw [log] at member
      rcases sound.reaped serial member with ⟨old, absent⟩
      rw [World.serials, processes, forks, List.map_append, List.mem_append]
      refine ⟨Nat.lt_succ_of_lt old, not_or.mpr ⟨absent, ?_⟩⟩
      rw [List.map_singleton, List.mem_singleton]
      exact Nat.ne_of_lt old
    · rw [log]
      exact sound.orderly

theorem killProcess (sound : world.Sound) {pid : Int} (member : pid ∈ world.pids)
    (signal : Signal) : (world.killProcess os pid signal).Sound := by
  have ticked := sound.of_idle (tick_idle os world)
  have memberTicked : pid ∈ (world.tick os).pids := by
    rwa [(tick_idle os world).pids]
  rcases childWithPid_isSome memberTicked with ⟨process, isProcess, -, found⟩
  constructor
  · exact ticked.pids
  · exact ticked.serials
  · exact ticked.spawned
  · intro serial reaped
    rw [World.killProcess, List.mem_append, List.mem_singleton] at reaped
    exact ticked.reaped serial (reaped.resolve_right nofun)
  · refine .concat ticked.orderly ⟨process.serial, found, fun reaped => ?_⟩
    exact (ticked.reaped _ reaped).2 (List.mem_map_of_mem isProcess)

theorem waitProcess (sound : world.Sound) {pid : Int} (member : pid ∈ world.pids) :
    (world.waitProcess os pid).Sound := by
  have ticked := sound.of_idle (tick_idle os world)
  have memberTicked : pid ∈ (world.tick os).pids := by
    rwa [(tick_idle os world).pids]
  rcases childWithPid_isSome memberTicked with ⟨process, isProcess, hasPid, found⟩
  have kept : (world.waitProcess os pid).processes.Sublist (world.tick os).processes := by
    rw [waitProcess_processes, tick_processes]
    exact List.filter_sublist
  have unreaped : Event.reaped (some process.serial) ∉ (world.tick os).log := fun reaped =>
    (ticked.reaped _ reaped).2 (List.mem_map_of_mem isProcess)
  constructor
  · exact ticked.pids.sublist (kept.map _)
  · exact ticked.serials.sublist (kept.map _)
  · intro serial isSerial
    exact ticked.spawned serial ((kept.map _).subset isSerial)
  · intro serial reaped
    rw [World.waitProcess, List.mem_append, List.mem_singleton] at reaped
    rcases reaped with before | now
    · rcases ticked.reaped serial before with ⟨old, absent⟩
      exact ⟨old, fun isSerial => absent ((kept.map _).subset isSerial)⟩
    · rw [found, Event.reaped.injEq, Option.some.injEq] at now
      subst now
      refine ⟨ticked.spawned _ (List.mem_map_of_mem isProcess), fun isSerial => ?_⟩
      rcases List.mem_map.mp isSerial with ⟨other, isOther, sameSerial⟩
      rw [waitProcess_processes, List.mem_filter] at isOther
      have same : other = process := List.inj_on_of_nodup_map ticked.serials
        (by rw [tick_processes]; exact isOther.1) isProcess sameSerial
      subst same
      exact of_decide_eq_true isOther.2 hasPid
  · exact .concat ticked.orderly ⟨process.serial, found, unreaped⟩

end Sound

end World

end Cllama.Platform
