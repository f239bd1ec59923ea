import Cllama.Core.RunnerMgr
import Cllama.Platform.ProcessTable
import Mathlib.Logic.Relation

/-!
# The life of runners under the manager

The registry and the process table of the server tell the same story: every child that
was forked and not yet waited for is registered under exactly one name, and every entry
has such a child.  `Unstarted` and `Started` are all that an attempt to start a runner
can do; together with `Stopped` they are the effects that operations are composed of.
-/

namespace Cllama.Core.RunnerMgr

open Cllama.Library Cllama.Platform

variable {os : Os}

/-! ## Attempts to start a runner -/

/-- A process is in a table and has not exited. -/
def AliveIn (pid : Int) (table : List Child) : Prop :=
  ∃ child ∈ table, child.pid = pid ∧ child.phase ≠ .exited

/-- No runner was started, and no child is left behind. -/
structure Unstarted (system next : System) : Prop where
  runners : next.manager.runners = system.manager.runners
  later : system.world.Later next.world
  processes : next.world.processes = system.world.processes
  sound : system.world.Sound → next.world.Sound

/-- A runner was started and registered.  Its pid is new, and its process was alive in the
meantime. -/
structure Started (name : Bytes) (r : Runner) (system next : System) : Prop where
  runners : next.manager.runners = system.manager.runners.insert name r
  named : r.info.name = name
  client : r.client = r.info.port
  newPid : r.info.pid ∉ system.world.pids
  startedAt : system.world.clock < r.info.startedAt
  clock : r.info.startedAt ≤ next.world.clock
  table : ∃ serial,
    next.world.processes = system.world.processes ++ [⟨serial, r.info.pid, r.info.port⟩] ∧
      Aged (system.world.children ++ [⟨⟨serial, r.info.pid, r.info.port⟩, .starting⟩])
        next.world.children
  sound : system.world.Sound → next.world.Sound
  moment : ∃ table ∈ next.world.moments.drop system.world.moments.length,
    AliveIn r.info.pid table

/-- A new runner has its port for itself: the children that had it before have retired,
and where no other process binds ports, it was the runner itself that answered a poll. -/
structure Exclusive (os : Os) (r : Runner) (system next : System) : Prop where
  vacated : (∀ child ∈ system.world.children, child.Begun) →
    ∀ child ∈ next.world.children, child.port = r.info.port → child.pid ≠ r.info.pid →
      child.Retired
  begun : (∀ call port, os.boundElsewhere call port = false) → system.world.Sound →
    (∀ child ∈ system.world.children, child.Begun) → ∀ child ∈ next.world.children, child.Begun

theorem Unstarted.of_idle {system next : System} (idle : system.world.Idle next.world)
    (runners : next.manager.runners = system.manager.runners) : Unstarted system next :=
  ⟨runners, idle.toLater, idle.processes, fun sound => sound.of_idle idle⟩

theorem Unstarted.trans {first second third : System} (before : Unstarted first second)
    (after : Unstarted second third) : Unstarted first third where
  runners := after.runners.trans before.runners
  later := before.later.trans after.later
  processes := after.processes.trans before.processes
  sound := after.sound ∘ before.sound

/-- A start after some other system calls. -/
theorem Started.after {name : Bytes} {r : Runner} {first second third : System}
    (started : Started name r second third) (idle : first.world.Idle second.world)
    (runners : second.manager.runners = first.manager.runners) :
    Started name r first third := by
  rcases started with ⟨registers, named, client, newPid, startedAt, clock,
    ⟨serial, processes, aged⟩, sound, table, member, alive⟩
  rw [runners] at registers
  rw [idle.pids] at newPid
  rw [idle.processes] at processes
  refine ⟨registers, named, client, newPid, Nat.lt_of_le_of_lt idle.clock startedAt, clock,
    ⟨serial, processes, (idle.aged.append _).trans aged⟩, fun before => sound (before.of_idle idle),
    table, ?_, alive⟩
  exact List.drop_subset_drop_left _ idle.moments.length_le member

theorem Exclusive.after {r : Runner} {first second third : System}
    (exclusive : Exclusive os r second third) (idle : first.world.Idle second.world) :
    Exclusive os r first third := by
  constructor
  · intro begun
    exact exclusive.vacated (idle.aged.begun begun)
  · intro own sound begun
    exact exclusive.begun own (sound.of_idle idle) (idle.aged.begun begun)

theorem pollHealth_idle (n : Nat) (client : Int) (world : World) :
    world.Idle (pollHealth os n client world).2 := by
  induction n generalizing world with
  | zero => exact .refl world
  | succ n ih =>
      rw [pollHealth]
      have idle := World.request_idle os client (bytes "/health") [] world
      generalize world.request os client (bytes "/health") [] = requested at idle ⊢
      rcases requested with ⟨⟨answerer, res⟩, next⟩
      dsimp only
      split
      · exact idle
      · exact idle.trans (ih next)

/-- Where no other process binds ports, a successful poll was answered by a child. -/
theorem pollHealth_answered (own : ∀ call port, os.boundElsewhere call port = false) {n : Nat}
    {client : Int} {world : World} (ok : (pollHealth os n client world).1 = true) :
    ∃ between : World, world.Idle between ∧ between.Idle (pollHealth os n client world).2 ∧
      ∃ child ∈ between.children, listeningOn client child = true := by
  induction n generalizing world with
  | zero => cases ok
  | succ n ih =>
      rw [pollHealth] at ok ⊢
      have idle := World.request_idle os client (bytes "/health") [] world
      have answered := World.request_answerer os own client (bytes "/health") [] world
      generalize world.request os client (bytes "/health") [] = requested at idle answered ok ⊢
      rcases requested with ⟨⟨answerer, res⟩, next⟩
      dsimp only at idle answered ok ⊢
      split at ok
      next healthy =>
        rw [if_pos healthy]
        rcases answered with ⟨-, failed⟩ | ⟨child, isChild, listens, -⟩
        · rw [failed] at healthy
          cases healthy
        · exact ⟨next, idle, .refl next, child, isChild, listens⟩
      next unhealthy =>
        rw [if_neg unhealthy]
        rcases ih ok with ⟨between, before, after, listens⟩
        exact ⟨between, idle.trans before, after, listens⟩

/-- When only retired children had the port before, the child that answered is the new
one. -/
theorem pollHealth_begun (own : ∀ call port, os.boundElsewhere call port = false) {n : Nat}
    {children : List Child} {process : Process} {world : World}
    (ok : (pollHealth os n process.port world).1 = true) (pids : world.pids.Nodup)
    (retired : ∀ child ∈ children, child.port = process.port → child.Retired)
    (aged : Aged (children ++ [⟨process, .starting⟩]) world.children) :
    ∀ child ∈ (pollHealth os n process.port world).2.children, child.pid = process.pid →
      child.Begun := by
  intro child member samePid
  rcases pollHealth_answered own ok with ⟨between, before, after, listener, isChild, listens⟩
  rcases listeningOn_iff.mp listens with ⟨listening, samePort⟩
  have listenerPid : listener.pid = process.pid := by
    by_contra other
    rcases (aged.trans before.aged).earlier isChild other with ⟨earlier, old, same, age⟩
    have gone := retired earlier old (by rw [same, samePort])
    exact Child.Retired.not_listening (Nat.le_trans gone age) listening
  rcases after.aged child member with ⟨earlier, isEarlier, same, age⟩
  have unique : earlier = listener := by
    have nodup : (between.children.map (·.pid)).Nodup := by
      have unchanged : between.pids.Nodup := by
        rwa [before.pids]
      rwa [World.pids, World.processes, List.map_map] at unchanged
    apply List.inj_on_of_nodup_map nodup isEarlier isChild
    rw [listenerPid, same, samePid]
  rw [unique, listening] at age
  exact age

theorem spawnRunner_cases (name binary modelPath : Bytes) (port : Int) (system : System) :
    (spawnRunner os name binary modelPath port system).1 = none ∧
        Unstarted system (spawnRunner os name binary modelPath port system).2 ∨
      ∃ r, (spawnRunner os name binary modelPath port system).1 = some r ∧
        r.info.port = port ∧
        Started name r system (spawnRunner os name binary modelPath port system).2 ∧
        ((∀ call port, os.boundElsewhere call port = false) → system.world.Sound →
          (∀ child ∈ system.world.children, child.port = port → child.Retired) →
          ∀ child ∈ (spawnRunner os name binary modelPath port system).2.world.children,
            child.pid = r.info.pid → child.Begun) := by
  rw [spawnRunner]
  have spawned := system.world.spawnProcess_cases os binary
    [bytes "--model", modelPath, bytes "--port", bytes (toString port)] port
  have soundSpawn : system.world.Sound → _ := fun sound => @World.Sound.spawnProcess os _ sound
    binary [bytes "--model", modelPath, bytes "--port", bytes (toString port)] port
  generalize system.world.spawnProcess os binary
    [bytes "--model", modelPath, bytes "--port", bytes (toString port)] port = result
    at spawned soundSpawn ⊢
  rcases result with ⟨pid, world⟩
  dsimp only at spawned soundSpawn ⊢
  rcases spawned with ⟨failed, idle⟩ | ⟨positive, newPid, clock, processes, aged, forks, log,
      table, isMoment, new⟩
  · rw [if_pos failed]
    exact Or.inl ⟨rfl, .of_idle idle rfl⟩
  · rw [if_neg (Int.not_lt.mpr (Int.le_of_lt positive))]
    have polled := @pollHealth_idle os 100 port world
    have begun := fun own => @pollHealth_begun os own 100 system.world.children
      ⟨system.world.forks, pid, port⟩ world
    dsimp only at begun
    generalize pollHealth os 100 port world = health at polled begun ⊢
    rcases health with ⟨ok, after⟩
    dsimp only at polled begun ⊢
    cases ok with
    | true =>
        refine Or.inr ⟨_, rfl, rfl, ⟨rfl, rfl, rfl, newPid, ?_, polled.clock,
          ⟨_, polled.processes.trans processes, aged.trans polled.aged⟩, ?_, table, ?_, ?_⟩, ?_⟩
        · exact clock ▸ Nat.lt_succ_self _
        · intro sound
          exact (soundSpawn sound).of_idle polled
        · exact mem_drop_of_prefix polled.moments isMoment
        · exact ⟨_, new, rfl, by simp⟩
        · intro own sound retired
          exact begun own rfl (soundSpawn sound).pids retired aged
    | false =>
        have member : pid ∈ after.pids := by
          rw [World.pids, polled.processes, processes]
          simp
        have memberKilled : pid ∈ (after.killProcess os pid .term).pids := by
          rwa [World.killProcess_pids]
        have others : ∀ process ∈ system.world.processes, process.pid ≠ pid :=
          fun process isProcess same => newPid (List.mem_map.mpr ⟨process, isProcess, same⟩)
        have killed := World.killProcess_later os pid .term after
        have waited := World.waitProcess_later os pid (after.killProcess os pid .term)
        rw [if_neg Bool.false_ne_true]
        refine Or.inl ⟨rfl, rfl, ⟨?_, ?_⟩, ?_, fun sound => ?_⟩
        · have spawnedAt : system.world.clock ≤ world.clock := clock ▸ Nat.le_succ _
          exact Nat.le_trans spawnedAt ((polled.toLater.trans killed).trans waited).clock
        · have agedAfter := aged.trans ((polled.toLater.trans killed).trans waited).aged
          exact agedAfter.leave (World.pid_of_waitProcess os)
        · dsimp only
          rw [World.waitProcess_processes, World.killProcess_processes, polled.processes,
            processes, List.filter_append]
          simpa using others
        · exact (((soundSpawn sound).of_idle polled).killProcess member .term).waitProcess
            memberKilled

/-- A free port is found, and a runner spawned on it, or neither leaves a trace. -/
theorem spawn_on_free_port (name binary modelPath : Bytes) (system : System) :
    let found := system.world.findFreePort os
    let spawned := spawnRunner os name binary modelPath found.1 { system with world := found.2 }
    found.1 ≤ 0 ∧ Unstarted system { system with world := found.2 } ∨
      ¬found.1 ≤ 0 ∧ (spawned.1 = none ∧ Unstarted system spawned.2 ∨
        ∃ r, spawned.1 = some r ∧ Started name r system spawned.2 ∧
          Exclusive os r system spawned.2) := by
  intro found spawned
  have idle : system.world.Idle found.2 := system.world.findFreePort_idle os
  by_cases positive : found.1 ≤ 0
  · exact Or.inl ⟨positive, .of_idle idle rfl⟩
  · refine Or.inr ⟨positive, ?_⟩
    have free : ∀ child ∈ found.2.children, ¬listeningOn found.1 child = true :=
      World.findFreePort_free os (Int.not_le.mp positive)
    rcases @spawnRunner_cases os name binary modelPath found.1 { system with world := found.2 }
      with ⟨none, after⟩ | ⟨r, some, samePort, started, begins⟩
    · have before : Unstarted system { system with world := found.2 } := .of_idle idle rfl
      exact Or.inl ⟨none, before.trans after⟩
    · refine Or.inr ⟨r, some, started.after idle rfl, ?_⟩
      rcases started.table with ⟨serial, -, aged⟩
      dsimp only at aged begins
      have deserted : (∀ child ∈ system.world.children, child.Begun) →
          ∀ child ∈ found.2.children, child.port = found.1 → child.Retired := by
        intro begun child member same
        apply (idle.aged.begun begun child member).retired
        rw [same]
        exact free child member
      constructor
      · intro begun child member same other
        rcases aged.earlier member other with ⟨earlier, old, sameProcess, age⟩
        have gone := deserted begun earlier old (by rw [sameProcess, same, samePort])
        exact Nat.le_trans gone age
      · intro own sound begun child member
        by_cases same : child.pid = r.info.pid
        · exact begins own (sound.of_idle idle) (deserted begun) child member same
        · rcases aged.earlier member same with ⟨earlier, old, -, age⟩
          exact Nat.le_trans (idle.aged.begun begun earlier old) age

/-- A registered runner is reused; otherwise one is started, or nothing is. -/
theorem getOrStart_cases (modelName : Bytes) (system : System) :
    (∃ r, find modelName system = some r ∧
        getOrStart os modelName system = (some (some r), system)) ∨
      find modelName system = none ∧
        ((∀ r, (getOrStart os modelName system).1 ≠ some (some r)) ∧
            Unstarted system (getOrStart os modelName system).2 ∨
          ∃ r, (getOrStart os modelName system).1 = some (some r) ∧
            Started modelName r system (getOrStart os modelName system).2 ∧
            Exclusive os r system (getOrStart os modelName system).2) := by
  rw [getOrStart]
  cases absent : find modelName system with
  | some r => exact Or.inl ⟨r, rfl, rfl⟩
  | none =>
    refine Or.inr ⟨rfl, ?_⟩
    dsimp only
    have idle := system.world.exists?_idle os (resolvePath system.manager modelName)
    generalize system.world.exists? os (resolvePath system.manager modelName) = checked
      at idle ⊢
    rcases checked with ⟨found, world⟩
    have before : Unstarted system { system with world := world } := .of_idle idle rfl
    dsimp only
    rcases found with _ | _ | _
    · exact Or.inl ⟨fun r => nofun, before⟩
    · exact Or.inl ⟨fun r => nofun, before⟩
    · rcases @spawn_on_free_port os modelName (runnerForModel system.manager modelName)
          (resolvePath system.manager modelName) { system with world := world } with
        ⟨failed, unstarted⟩ | ⟨positive, outcome⟩
      · dsimp only at failed unstarted
        rw [if_pos failed]
        exact Or.inl ⟨fun r => nofun, before.trans unstarted⟩
      · dsimp only at positive outcome
        rw [if_neg positive]
        rcases outcome with ⟨failed, unstarted⟩ | ⟨r, spawned, started, exclusive⟩
        · refine Or.inl ⟨fun r same => ?_, before.trans unstarted⟩
          dsimp only at same
          rw [failed] at same
          cases same
        · exact Or.inr ⟨r, congrArg some spawned, started.after idle rfl, exclusive.after idle⟩

theorem start_snd (modelName : Bytes) (system : System) :
    (start os modelName system).2 = (getOrStart os modelName system).2 := by
  rw [start]
  rcases getOrStart os modelName system with ⟨_ | _ | r, next⟩ <;> rfl

/-- A start under a given name succeeds with a new runner, or starts nothing. -/
theorem startRunner_cases (name binary type path : Bytes) (system : System) :
    (∀ started, (startRunner os name binary type path system).1 ≠ some (.ok started)) ∧
        Unstarted system (startRunner os name binary type path system).2 ∨
      find name system = none ∧
        ∃ r, (startRunner os name binary type path system).1 = some (.ok true) ∧
          Started name r system (startRunner os name binary type path system).2 ∧
          Exclusive os r system (startRunner os name binary type path system).2 := by
  rw [startRunner]
  cases absent : find name system with
  | some r => exact Or.inl ⟨fun started => nofun, .of_idle (.refl _) rfl⟩
  | none =>
    rw [Option.isSome_none, if_neg Bool.false_ne_true]
    have idle := system.world.exists?_idle os path
    generalize system.world.exists? os path = checked at idle ⊢
    rcases checked with ⟨found, world⟩
    have before : Unstarted system { system with world := world } := .of_idle idle rfl
    dsimp only
    rcases found with _ | _ | _
    · exact Or.inl ⟨fun started => nofun, before⟩
    · exact Or.inl ⟨fun started => nofun, before⟩
    · rcases @spawn_on_free_port os name (effectiveBinary system.manager binary type path)
          path { system with world := world } with
        ⟨failed, unstarted⟩ | ⟨positive, outcome⟩
      · dsimp only at failed unstarted ⊢
        rw [if_pos failed]
        exact Or.inl ⟨fun started => nofun, before.trans unstarted⟩
      · dsimp only at positive outcome ⊢
        rw [if_neg positive]
        generalize spawnRunner os name (effectiveBinary system.manager binary type path) path
          (world.findFreePort os).1 { system with world := (world.findFreePort os).2 } = spawned
          at outcome ⊢
        rcases spawned with ⟨result, next⟩
        dsimp only at outcome
        rcases outcome with ⟨rfl, unstarted⟩ | ⟨r, rfl, started, exclusive⟩
        · exact Or.inl ⟨fun started => nofun, before.trans unstarted⟩
        · exact Or.inr ⟨rfl, r, rfl, started.after idle rfl, exclusive.after idle⟩

/-! ## Registry and table -/

/-- A runner is registered under a name. -/
def Entry (runners : Std.TreeMap Bytes Runner) (name : Bytes) (r : Runner) : Prop :=
  runners[name]? = some r

theorem entry_insert {runners : Std.TreeMap Bytes Runner} {name other : Bytes}
    {r found : Runner} :
    Entry (runners.insert name r) other found ↔
      name = other ∧ r = found ∨ name ≠ other ∧ Entry runners other found := by
  rw [Entry, Entry, Std.TreeMap.getElem?_insert]
  simp only [Std.LawfulEqCmp.compare_eq_iff_eq]
  split
  next same => simp [same]
  next differs => simp [differs]

theorem entry_erase {runners : Std.TreeMap Bytes Runner} {name other : Bytes}
    {found : Runner} :
    Entry (runners.erase name) other found ↔ name ≠ other ∧ Entry runners other found := by
  rw [Entry, Entry, Std.TreeMap.getElem?_erase]
  simp only [Std.LawfulEqCmp.compare_eq_iff_eq]
  split
  next same => simp [same]
  next differs => simp [differs]

/-- Registry and process table match. -/
structure Tracks (runners : Std.TreeMap Bytes Runner) (processes : List Process) : Prop where
  named : ∀ name r, Entry runners name r → r.info.name = name
  distinct : ∀ left right l r, Entry runners left l → Entry runners right r →
    l.info.pid = r.info.pid → left = right
  children : ∀ pid, (∃ name r, Entry runners name r ∧ r.info.pid = pid) ↔
    pid ∈ processes.map Process.pid
  ports : ∀ name r, Entry runners name r → r.client = r.info.port ∧
    ∀ process ∈ processes, process.pid = r.info.pid → process.port = r.info.port

namespace Tracks

variable {runners : Std.TreeMap Bytes Runner} {processes : List Process}

theorem empty : Tracks ∅ [] where
  named _ _ found := by simp [Entry] at found
  distinct _ _ _ _ found := by simp [Entry] at found
  children _ := by simp [Entry]
  ports _ _ found := by simp [Entry] at found

/-- The pid of an entry is that of a child. -/
theorem member (tracks : Tracks runners processes) {name : Bytes} {r : Runner}
    (entry : Entry runners name r) : r.info.pid ∈ processes.map Process.pid :=
  (tracks.children r.info.pid).mp ⟨name, r, entry, rfl⟩

/-- A new child is registered under a name that was free. -/
theorem insert (tracks : Tracks runners processes) {name : Bytes} {r : Runner} {serial : Nat}
    (absent : runners[name]? = none) (named : r.info.name = name)
    (client : r.client = r.info.port) (newPid : r.info.pid ∉ processes.map Process.pid) :
    Tracks (runners.insert name r) (processes ++ [⟨serial, r.info.pid, r.info.port⟩]) := by
  constructor
  · intro other found entry
    rcases entry_insert.mp entry with ⟨rfl, rfl⟩ | ⟨-, old⟩
    · exact named
    · exact tracks.named other found old
  · intro left right l r' leftEntry rightEntry same
    rcases entry_insert.mp leftEntry with ⟨rfl, rfl⟩ | ⟨-, leftOld⟩ <;>
      rcases entry_insert.mp rightEntry with ⟨rfl, rfl⟩ | ⟨-, rightOld⟩
    · rfl
    · exact absurd (same ▸ tracks.member rightOld) newPid
    · exact absurd (same ▸ tracks.member leftOld) newPid
    · exact tracks.distinct left right l r' leftOld rightOld same
  · intro pid
    rw [List.map_append, List.mem_append, List.map_singleton, List.mem_singleton,
      ← tracks.children pid]
    constructor
    · rintro ⟨other, found, entry, rfl⟩
      rcases entry_insert.mp entry with ⟨-, rfl⟩ | ⟨-, old⟩
      · exact Or.inr rfl
      · exact Or.inl ⟨other, found, old, rfl⟩
    · rintro (⟨other, found, old, rfl⟩ | rfl)
      · refine ⟨other, found, entry_insert.mpr (Or.inr ⟨?_, old⟩), rfl⟩
        rintro rfl
        rw [Entry, absent] at old
        cases old
      · exact ⟨name, r, entry_insert.mpr (Or.inl ⟨rfl, rfl⟩), rfl⟩
  · intro other found entry
    rw [List.forall_mem_append, List.forall_mem_singleton]
    rcases entry_insert.mp entry with ⟨rfl, rfl⟩ | ⟨-, old⟩
    · refine ⟨client, fun process isProcess same => ?_, fun _ => rfl⟩
      exact absurd (List.mem_map.mpr ⟨process, isProcess, same⟩) newPid
    · refine ⟨(tracks.ports other found old).1, (tracks.ports other found old).2, fun same => ?_⟩
      dsimp only at same
      exact absurd (same ▸ tracks.member old) newPid

/-- Some children are waited for and their entries erased. -/
theorem retain (tracks : Tracks runners processes) {kept : Std.TreeMap Bytes Runner}
    {gone : List Int}
    (entries : ∀ name r, Entry kept name r ↔ Entry runners name r ∧ r.info.pid ∉ gone) :
    Tracks kept (processes.filter (·.pid ∉ gone)) := by
  constructor
  · intro name r entry
    exact tracks.named name r ((entries name r).mp entry).1
  · intro left right l r leftEntry rightEntry same
    exact tracks.distinct left right l r ((entries left l).mp leftEntry).1
      ((entries right r).mp rightEntry).1 same
  · intro pid
    constructor
    · rintro ⟨name, r, entry, rfl⟩
      rcases (entries name r).mp entry with ⟨old, stays⟩
      rcases List.mem_map.mp (tracks.member old) with ⟨process, isProcess, same⟩
      refine List.mem_map.mpr ⟨process, List.mem_filter.mpr ⟨isProcess, ?_⟩, same⟩
      rw [same]
      exact decide_eq_true stays
    · intro isPid
      rcases List.mem_map.mp isPid with ⟨process, isProcess, rfl⟩
      rcases List.mem_filter.mp isProcess with ⟨old, stays⟩
      rcases (tracks.children process.pid).mpr (List.mem_map_of_mem old) with
        ⟨name, r, entry, same⟩
      refine ⟨name, r, (entries name r).mpr ⟨entry, ?_⟩, same⟩
      rw [same]
      exact of_decide_eq_true stays
  · intro name r entry
    rcases tracks.ports name r ((entries name r).mp entry).1 with ⟨client, same⟩
    exact ⟨client, fun process isProcess => same process (List.mem_filter.mp isProcess).1⟩

end Tracks

/-! ## Stopping -/

/-- A child stays visible until it is waited for, so the poll never finds it gone. -/
theorem awaitExit_of_member {pid : Int} (n : Nat) {world : World} (member : pid ∈ world.pids) :
    (awaitExit os n pid world).1 = false ∧ world.Idle (awaitExit os n pid world).2 := by
  induction n generalizing world with
  | zero => exact ⟨rfl, .refl world⟩
  | succ n ih =>
      have idle := World.processIsAlive_idle os pid world
      have alive := World.processIsAlive_of_member os member
      rw [awaitExit]
      generalize world.processIsAlive os pid = checked at idle alive ⊢
      rcases checked with ⟨answer, next⟩
      cases alive
      have memberAfter : pid ∈ next.pids := by
        rwa [idle.pids]
      rcases ih memberAfter with ⟨notGone, idleAfter⟩
      exact ⟨notGone, idle.trans idleAfter⟩

/-- A registered child is waited for, and leaves the table. -/
theorem stopWithTimeout_of_member {pid : Int} {world : World} (member : pid ∈ world.pids) :
    world.Later (stopWithTimeout os pid world) ∧
      (stopWithTimeout os pid world).processes = world.processes.filter (·.pid ≠ pid) ∧
      (world.Sound → (stopWithTimeout os pid world).Sound) := by
  have memberTerm : pid ∈ (world.killProcess os pid .term).pids := by
    rwa [World.killProcess_pids]
  rcases @awaitExit_of_member os pid 50 _ memberTerm with ⟨notGone, idle⟩
  rw [stopWithTimeout]
  generalize awaitExit os 50 pid (world.killProcess os pid .term) = awaited at notGone idle ⊢
  rcases awaited with ⟨gone, next⟩
  cases notGone
  have memberNext : pid ∈ next.pids := by
    rwa [idle.pids]
  have memberKill : pid ∈ (next.killProcess os pid .kill).pids := by
    rwa [World.killProcess_pids]
  simp only [Bool.false_eq_true, if_false]
  refine ⟨?_, ?_, ?_⟩
  · have asked := World.killProcess_later os pid .term world
    have killed := World.killProcess_later os pid .kill next
    have waited := World.waitProcess_later os pid (next.killProcess os pid .kill)
    exact ((asked.trans idle.toLater).trans killed).trans waited
  · rw [World.waitProcess_processes, World.killProcess_processes, idle.processes,
      World.killProcess_processes]
  · intro sound
    exact (((sound.killProcess member .term).of_idle idle).killProcess memberNext .kill).waitProcess
      memberKill

/-- Signals to registered children change nothing but the log. -/
theorem foldl_killProcess (runners : List Runner) {world : World}
    (members : ∀ r ∈ runners, r.info.pid ∈ world.pids) :
    let killed := runners.foldl (fun world r => world.killProcess os r.info.pid .term) world
    world.Later killed ∧ killed.processes = world.processes ∧ (world.Sound → killed.Sound) := by
  induction runners generalizing world with
  | nil => exact ⟨.refl world, rfl, id⟩
  | cons r runners ih =>
      rw [List.forall_mem_cons] at members
      have same := World.killProcess_processes os r.info.pid .term world
      have rest : ∀ other ∈ runners, other.info.pid ∈
          (world.killProcess os r.info.pid .term).pids := by
        rw [World.pids, same]
        exact members.2
      rcases ih rest with ⟨later, processes, sound⟩
      refine ⟨(World.killProcess_later os r.info.pid .term world).trans later, ?_, ?_⟩
      · exact processes.trans same
      · intro before
        exact sound (before.killProcess members.1 .term)

/-- Stopping children one after another takes exactly these out of the table. -/
theorem foldl_stopWithTimeout (runners : List Runner) {world : World}
    (members : ∀ r ∈ runners, r.info.pid ∈ world.pids)
    (distinct : (runners.map (·.info.pid)).Nodup) :
    let stopped := runners.foldl (fun world r => stopWithTimeout os r.info.pid world) world
    world.Later stopped ∧
      stopped.processes =
        world.processes.filter (fun process => process.pid ∉ runners.map (·.info.pid)) ∧
      (world.Sound → stopped.Sound) := by
  induction runners generalizing world with
  | nil => exact ⟨.refl world, by simp, id⟩
  | cons r runners ih =>
      rw [List.forall_mem_cons] at members
      rw [List.map_cons, List.nodup_cons] at distinct
      rcases @stopWithTimeout_of_member os _ _ members.1 with ⟨later, processes, sound⟩
      have rest : ∀ other ∈ runners, other.info.pid ∈
          (stopWithTimeout os r.info.pid world).pids := by
        intro other member
        rcases List.mem_map.mp (members.2 other member) with ⟨process, isProcess, samePid⟩
        rw [World.pids, processes]
        refine List.mem_map.mpr ⟨process, List.mem_filter.mpr ⟨isProcess, ?_⟩, samePid⟩
        rw [samePid]
        exact decide_eq_true fun same => distinct.1 (List.mem_map.mpr ⟨other, member, same⟩)
      rcases ih rest distinct.2 with ⟨laterRest, processesRest, soundRest⟩
      refine ⟨later.trans laterRest, ?_, soundRest ∘ sound⟩
      rw [List.foldl_cons, processesRest, processes, List.filter_filter]
      apply List.filter_congr
      intro process _
      by_cases same : process.pid = r.info.pid <;> simp [same]

/-- Registered runners were stopped: their processes were waited for, and their entries
erased. -/
structure Stopped (gone : List Int) (system next : System) : Prop where
  entries : ∀ name r, Entry next.manager.runners name r ↔
    Entry system.manager.runners name r ∧ r.info.pid ∉ gone
  later : system.world.Later next.world
  processes : next.world.processes = system.world.processes.filter (·.pid ∉ gone)
  sound : system.world.Sound → next.world.Sound

/-! ## Effects -/

/-- What a part of an operation does to registry and processes. -/
inductive Effect (os : Os) (system next : System) : Prop where
  | unstarted (unstarted : Unstarted system next)
  | started (name : Bytes) (r : Runner) (absent : find name system = none)
      (started : Started name r system next) (exclusive : Exclusive os r system next)
  | stopped (gone : List Int) (stopped : Stopped gone system next)

/-- What an operation does to registry and processes. -/
def Effects (os : Os) : System → System → Prop :=
  Relation.ReflTransGen (Effect os)

end Cllama.Core.RunnerMgr
