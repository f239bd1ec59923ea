import Cllama.Core.DeadRunners

/-!
# Routing of inference requests

A request is sent to the port that the registry records for its name.  The entry of a
runner that is gone keeps its port, and the system may give that port to a runner started
later, which then answers the requests for the old name.  `Routed` is the invariant by
which nothing else can go wrong: of the registered runners with one port, all but the
latest have stopped listening for good.
-/

namespace Cllama.Core.RunnerMgr

open Cllama.Library Cllama.Platform

/-! ## Runners that share a port -/

structure Routed (system : System) : Prop where
  begun : ∀ child ∈ system.world.children, child.Begun
  startedAt : ∀ name r, Entry system.manager.runners name r →
    r.info.startedAt ≤ system.world.clock
  superseded : ∀ left right l r, Entry system.manager.runners left l →
    Entry system.manager.runners right r → left ≠ right → l.info.port = r.info.port →
    l.info.startedAt ≤ r.info.startedAt →
    ∀ child ∈ system.world.children, child.pid = l.info.pid → child.Retired

variable {os : Os} {codec : Codec}

theorem routed_create (runnerBinary modelsPath : Bytes) :
    Routed (.create runnerBinary modelsPath) where
  begun := List.forall_mem_nil _
  startedAt _ _ entry := by simp [Entry, System.create] at entry
  superseded _ _ _ _ entry := by simp [Entry, System.create] at entry

namespace Routed

variable {system next : System}

/-- Time and the end of runners only retire children. -/
theorem later (routed : Routed system) (later : system.world.Later next.world)
    (entries : ∀ name r, Entry next.manager.runners name r →
      Entry system.manager.runners name r) : Routed next := by
  constructor
  · exact later.aged.begun routed.begun
  · intro name r entry
    exact Nat.le_trans (routed.startedAt name r (entries name r entry)) later.clock
  · intro left right l r leftEntry rightEntry differ samePort order child member samePid
    rcases later.aged child member with ⟨before, isBefore, same, age⟩
    have retired := routed.superseded left right l r (entries left l leftEntry)
      (entries right r rightEntry) differ samePort order before isBefore (by rw [same, samePid])
    exact Nat.le_trans retired age

/-- A new runner is the latest on its port, which those that had it before have left. -/
theorem started (own : ∀ call port, os.boundElsewhere call port = false)
    (consistent : Consistent system) (routed : Routed system) {name : Bytes} {r : Runner}
    (absent : find name system = none) (started : Started name r system next)
    (exclusive : Exclusive os r system next) : Routed next := by
  have after : Consistent next :=
    consistent.effect (.started name r absent started exclusive)
  have newer : ∀ other o, Entry system.manager.runners other o →
      o.info.startedAt < r.info.startedAt := fun other o entry =>
    Nat.lt_of_le_of_lt (routed.startedAt other o entry) started.startedAt
  have otherPid : ∀ other o, Entry system.manager.runners other o → ∀ child : Child,
      child.pid = o.info.pid → child.pid ≠ r.info.pid := by
    intro other o entry child samePid same
    apply started.newPid
    rw [← same, samePid]
    exact consistent.tracks.member entry
  constructor
  · exact exclusive.begun own consistent.sound routed.begun
  · intro other o entry
    rw [started.runners] at entry
    rcases entry_insert.mp entry with ⟨rfl, rfl⟩ | ⟨-, old⟩
    · exact started.clock
    · exact Nat.le_trans (Nat.le_of_lt (newer other o old)) started.clock
  · intro left right l o leftEntry rightEntry differ samePort order child member samePid
    have ports := (after.tracks.ports left l leftEntry).2 child.toProcess
      (List.mem_map_of_mem member) samePid
    rw [started.runners] at leftEntry rightEntry
    rcases entry_insert.mp leftEntry with ⟨rfl, rfl⟩ | ⟨-, leftOld⟩ <;>
      rcases entry_insert.mp rightEntry with ⟨rfl, rfl⟩ | ⟨-, rightOld⟩
    · exact absurd rfl differ
    · exact absurd order (Nat.not_le.mpr (newer right o rightOld))
    · have other := otherPid left l leftOld child samePid
      exact exclusive.vacated routed.begun child member (ports.trans samePort) other
    · rcases started.table with ⟨serial, -, aged⟩
      have other := otherPid left l leftOld child samePid
      rcases aged.earlier member other with ⟨before, old, same, age⟩
      have retired := routed.superseded left right l o leftOld rightOld differ samePort order
        before old (by rw [same, samePid])
      exact Nat.le_trans retired age

theorem effect (own : ∀ call port, os.boundElsewhere call port = false)
    (consistent : Consistent system) (routed : Routed system)
    (effect : Effect os system next) : Routed next := by
  cases effect with
  | unstarted unstarted =>
      apply routed.later unstarted.later
      rw [unstarted.runners]
      intro name r entry
      exact entry
  | started name r absent started exclusive =>
      exact routed.started own consistent absent started exclusive
  | stopped gone stopped =>
      exact routed.later stopped.later fun name r entry => ((stopped.entries name r).mp entry).1

theorem effects (own : ∀ call port, os.boundElsewhere call port = false)
    (consistent : Consistent system) (routed : Routed system)
    (effects : Effects os system next) : Routed next := by
  have both : Consistent next ∧ Routed next := by
    induction effects with
    | refl => exact ⟨consistent, routed⟩
    | tail _ effect ih => exact ⟨ih.1.effect effect, ih.2.effect own ih.1 effect⟩
  exact both.2

end Routed

/-! ## Requests -/

/-- A request is answered by the process registered under its name, if at all. -/
def Answer.Faithful (answer : Answer) : Prop :=
  answer.answerer ≠ .nobody →
    ∃ pid, answer.registered = some pid ∧ answer.answerer = .child pid

/-- The name that an inference request is proxied for. -/
def Call.proxiedName : Call → Option Bytes
  | .generateCompletion modelName _ _ => some modelName
  | .chatCompletion modelName _ _ => some modelName
  | .streamCompletion modelName _ _ _ => some modelName
  | .streamChat modelName _ _ _ => some modelName
  | .generateEmbeddings modelName _ => some modelName
  | _ => none

/-- If a runner is registered under a name, no living runner that was started later is
recorded with its port. -/
def Latest (system : System) (name : Bytes) : Prop :=
  ∀ r, Entry system.manager.runners name r →
    ∀ other o, Entry system.manager.runners other o → o.info.port = r.info.port →
      AliveIn o.info.pid system.world.children → o.info.startedAt ≤ r.info.startedAt

/-- Every inference request of a run is for a name whose runner is the latest living one on
its port, or that has no runner yet. -/
def LatestRun (os : Os) (codec : Codec) : System → List Action → Prop
  | _, [] => True
  | system, action :: actions =>
      (∀ call modelName, action = .call call → call.proxiedName = some modelName →
        Latest system modelName) ∧
      LatestRun os codec (act os codec system action) actions

/-- The runner to which a request is sent is registered under its name, and the latest on
its port if the one registered before was. -/
theorem getOrStart_latest {system : System} (routed : Routed system) {modelName : Bytes}
    {r : Runner} (got : (getOrStart os modelName system).1 = some (some r))
    (latest : Latest system modelName) :
    Entry (getOrStart os modelName system).2.manager.runners modelName r ∧
      Latest (getOrStart os modelName system).2 modelName := by
  rcases @getOrStart_cases os modelName system with
    ⟨found, entry, reused⟩ | ⟨-, ⟨notStarted, -⟩ | ⟨found, isNew, started, -⟩⟩
  · rw [reused] at got ⊢
    cases got
    exact ⟨entry, latest⟩
  · exact absurd got (notStarted r)
  · rw [got, Option.some.injEq, Option.some.injEq] at isNew
    subst isNew
    rw [Latest, started.runners]
    refine ⟨entry_insert.mpr (Or.inl ⟨rfl, rfl⟩), ?_⟩
    intro new entry other o otherEntry _ _
    rcases entry_insert.mp entry with ⟨-, rfl⟩ | ⟨differs, -⟩
    · rcases entry_insert.mp otherEntry with ⟨-, rfl⟩ | ⟨-, old⟩
      · exact Nat.le_refl _
      · exact Nat.le_of_lt
          (Nat.lt_of_le_of_lt (routed.startedAt other o old) started.startedAt)
    · exact absurd rfl differs

/-- A child that listens on the port of the latest runner is that runner. -/
theorem pid_of_listening {system : System} {name : Bytes} {r : Runner}
    (consistent : Consistent system) (routed : Routed system)
    (entry : Entry system.manager.runners name r) (latest : Latest system name) {child : Child}
    (isChild : child ∈ system.world.children) (listens : ¬child.Retired)
    (bound : child.port = r.client) : child.pid = r.info.pid := by
  have isProcess : child.toProcess ∈ system.world.processes := List.mem_map_of_mem isChild
  rcases (consistent.tracks.children child.pid).mpr (List.mem_map_of_mem isProcess) with
    ⟨other, o, otherEntry, samePid⟩
  have samePort : o.info.port = r.info.port := by
    rw [← (consistent.tracks.ports name r entry).1, ← bound]
    exact ((consistent.tracks.ports other o otherEntry).2 _ isProcess samePid.symm).symm
  by_cases sameName : other = name
  · subst sameName
    rw [Entry, entry, Option.some.injEq] at otherEntry
    rw [← samePid, otherEntry]
  · have living : child.phase ≠ .exited := by
      intro exited
      rw [Child.Retired, exited] at listens
      exact listens (by decide)
    have order := latest r entry other o otherEntry samePort
      ⟨child, isChild, samePid.symm, living⟩
    exact absurd (routed.superseded other name o r otherEntry entry sameName samePort order child
      isChild samePid.symm) listens

theorem spawnRunner_answers (name binary modelPath : Bytes) (port : Int) (system : System) :
    (spawnRunner os name binary modelPath port system).2.answers = system.answers := by
  rw [spawnRunner]
  dsimp only
  split
  · rfl
  · split <;> rfl

theorem getOrStart_answers (modelName : Bytes) (system : System) :
    (getOrStart os modelName system).2.answers = system.answers := by
  rw [getOrStart]
  cases find modelName system with
  | some r => rfl
  | none =>
      dsimp only
      split
      · rfl
      · rfl
      · split
        · rfl
        · exact spawnRunner_answers _ _ _ _ _

theorem startRunner_answers (name binary type path : Bytes) (system : System) :
    (startRunner os name binary type path system).2.answers = system.answers := by
  rw [startRunner]
  split
  · rfl
  · dsimp only
    split
    · rfl
    · rfl
    · split
      · rfl
      · have same := @spawnRunner_answers os name
          (effectiveBinary system.manager binary type path) path
          ((system.world.exists? os path).2.findFreePort os).1
          { system with world := ((system.world.exists? os path).2.findFreePort os).2 }
        split
        next next spawned => rwa [spawned] at same
        next r next spawned => rwa [spawned] at same

theorem proxy_faithful {α : Type} (own : ∀ call port, os.boundElsewhere call port = false)
    {system : System} (consistent : Consistent system) (routed : Routed system)
    {modelName : Bytes} (latest : Latest system modelName)
    (before : ∀ answer ∈ system.answers, answer.Faithful) (path : Bytes) (body : Json)
    (reply : Http.Exchange → CLlamaResult α) :
    ∀ answer ∈ (proxy os codec modelName path body reply system).2.answers,
      answer.Faithful := by
  have effect := @getOrStart_effect os system modelName
  have consistentAfter := consistent.effect effect
  have routedAfter := routed.effect own consistent effect
  have latestAfter := fun r got => @getOrStart_latest os system routed modelName r got latest
  rw [← @getOrStart_answers os modelName system] at before
  rw [proxy]
  generalize getOrStart os modelName system = result
    at consistentAfter routedAfter latestAfter before ⊢
  rcases result with ⟨_ | _ | r, next⟩
  · exact before
  · exact before
  · dsimp only
    cases codec.dump body with
    | none => exact before
    | some text =>
        dsimp only
        rw [List.forall_mem_append, List.forall_mem_singleton]
        refine ⟨before, fun answered => ?_⟩
        dsimp only at answered ⊢
        rcases latestAfter r rfl with ⟨entry, latestNext⟩
        rcases World.request_answerer os own r.client path text next.world with
          ⟨nobody, -⟩ | ⟨child, isChild, listens, isAnswerer⟩
        · exact absurd nobody answered
        · rcases listeningOn_iff.mp listens with ⟨listening, bound⟩
          have idle := World.request_idle os r.client path text next.world
          rcases idle.aged child isChild with ⟨earlier, isEarlier, same, age⟩
          have samePid := pid_of_listening consistentAfter routedAfter entry latestNext isEarlier
            (fun retired => Child.Retired.not_listening (Nat.le_trans retired age) listening)
            (by rw [same, bound])
          have found : find modelName next = some r := entry
          rw [found, isAnswerer, ← same, samePid]
          exact ⟨r.info.pid, rfl, rfl⟩

/-- No operation but an inference request is answered. -/
theorem perform_answers {system : System} {call : Call} (other : call.proxiedName = none) :
    (perform os codec system call).answers = system.answers := by
  cases call with
  | registerRunnerBinary modelName binary => rfl
  | registerRunnerType typeName binary => rfl
  | start modelName =>
      rw [perform, start_snd]
      exact getOrStart_answers modelName system
  | startRunner name binary type path => exact startRunner_answers name binary type path system
  | stop name =>
      rw [perform, stop]
      cases find name system <;> rfl
  | stopAll => rfl
  | health name =>
      rw [perform, health]
      cases find name system <;> rfl
  | listRunners => rfl
  | generateCompletion => cases other
  | chatCompletion => cases other
  | streamCompletion => cases other
  | streamChat => cases other
  | generateEmbeddings => cases other

theorem act_faithful (own : ∀ call port, os.boundElsewhere call port = false)
    {system : System} (consistent : Consistent system) (routed : Routed system)
    (before : ∀ answer ∈ system.answers, answer.Faithful) {action : Action}
    (latest : ∀ call modelName, action = .call call → call.proxiedName = some modelName →
      Latest system modelName) :
    ∀ answer ∈ (act os codec system action).answers, answer.Faithful := by
  cases action with
  | elapse => exact before
  | call call =>
      cases name : call.proxiedName with
      | none =>
          rw [act, perform_answers name]
          exact before
      | some modelName =>
          have newest := latest call modelName rfl name
          cases call <;> cases name <;>
            exact proxy_faithful own consistent routed newest before _ _ _

/-- In every run in which only the runners of the manager bind the ports, and every
inference request is for a name whose runner, if there is one, is the latest living one on
its port, the requests are answered by the process registered under their name, if at
all. -/
theorem requests_isolated (os : Os) (codec : Codec) (runnerBinary modelsPath : Bytes)
    (own : ∀ call port, os.boundElsewhere call port = false) (actions : List Action)
    (latest : LatestRun os codec (.create runnerBinary modelsPath) actions) :
    ∀ answer ∈ (run os codec runnerBinary modelsPath actions).answers, answer.Faithful := by
  rw [run]
  have consistent := consistent_create runnerBinary modelsPath
  have routed := routed_create runnerBinary modelsPath
  have before : ∀ answer ∈ (System.create runnerBinary modelsPath).answers, answer.Faithful :=
    List.forall_mem_nil _
  generalize System.create runnerBinary modelsPath = system
    at consistent routed before latest ⊢
  induction actions generalizing system with
  | nil => exact before
  | cons action actions ih =>
      have effects := @act_effects os codec system consistent action
      exact ih _ (consistent.effects effects) (routed.effects own consistent effects)
        (act_faithful own consistent routed before latest.1) latest.2

/-- The first of two runners with one port has exited; a request reaches the second. -/
theorem requests_isolated_latest :
    (run portReused JsonText.reference [] []
        [.call (.start (bytes "a")), .elapse, .call (.start (bytes "b")),
          .call (.generateEmbeddings (bytes "b") (bytes "x"))]).answers =
        [⟨bytes "b", some 8, .child 8⟩] ∧
      ∀ answer ∈ (run portReused JsonText.reference [] []
        [.call (.start (bytes "a")), .elapse, .call (.start (bytes "b")),
          .call (.generateEmbeddings (bytes "b") (bytes "x"))]).answers, answer.Faithful := by
  have order : ∀ pair ∈ (run portReused JsonText.reference [] [] [.call (.start (bytes "a")),
        .elapse, .call (.start (bytes "b"))]).manager.runners.toList,
      ∀ other ∈ (run portReused JsonText.reference [] [] [.call (.start (bytes "a")),
        .elapse, .call (.start (bytes "b"))]).manager.runners.toList,
      pair.1 = bytes "b" → other.2.info.startedAt ≤ pair.2.info.startedAt := by decide +kernel
  refine ⟨by decide +kernel, requests_isolated portReused JsonText.reference [] []
    (fun _ _ => rfl) _ ⟨?_, ?_, ?_, ?_, trivial⟩⟩
  · intro call modelName isCall isName
    cases isCall
    cases isName
  · intro call modelName isCall isName
    cases isCall
  · intro call modelName isCall isName
    cases isCall
    cases isName
  · intro call modelName isCall isName r entry other o otherEntry _ _
    cases isCall
    cases isName
    exact order (bytes "b", r) (Std.TreeMap.mem_toList_iff_getElem?_eq_some.mpr entry)
      (other, o) (Std.TreeMap.mem_toList_iff_getElem?_eq_some.mpr otherEntry) rfl

/-- The port of a dead runner is given to the runner of another model, which then answers
the requests for the dead one. -/
theorem not_isolated_of_port_reused :
    (∀ call port, portReused.boundElsewhere call port = false) ∧
      ¬∀ answer ∈ (run portReused JsonText.reference [] []
        [.call (.start (bytes "a")), .elapse, .call (.start (bytes "b")),
          .call (.generateEmbeddings (bytes "a") (bytes "x"))]).answers, answer.Faithful := by
  refine ⟨fun _ _ => rfl, fun faithful => ?_⟩
  have misrouted : (⟨bytes "a", some 7, .child 8⟩ : Answer) ∈
      (run portReused JsonText.reference [] []
        [.call (.start (bytes "a")), .elapse, .call (.start (bytes "b")),
          .call (.generateEmbeddings (bytes "a") (bytes "x"))]).answers := by
    decide +kernel
  rcases faithful _ misrouted nofun with ⟨pid, registered, answerer⟩
  cases registered
  cases answerer

end Cllama.Core.RunnerMgr
