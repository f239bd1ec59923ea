import Cllama.Core.Consistency
import Cllama.Library.JsonText

/-!
# Entries of runners that are gone

The entry of a runner stays in the registry when its process exits, and no operation
looks whether the process is there before it uses the entry.  A start then succeeds
without a running runner.  This module says when a start does ensure one.
-/

namespace Cllama.Core.RunnerMgr

open Cllama.Library Cllama.Platform

variable {os : Os} {codec : Codec}

/-- A process is alive before a call, or at some moment in it. -/
def AliveDuring (pid : Int) (system next : System) : Prop :=
  AliveIn pid system.world.children ∨
    ∃ table ∈ next.world.moments.drop system.world.moments.length, AliveIn pid table

/-- If a start succeeds, the process registered under the name is alive at some moment. -/
def StartEnsures (os : Os) (system : System) (modelName : Bytes) : Prop :=
  ∀ started, (start os modelName system).1 = some (.ok started) →
    ∃ r, Entry (start os modelName system).2.manager.runners modelName r ∧
      AliveDuring r.info.pid system (start os modelName system).2

theorem start_of_entry {system : System} {modelName : Bytes} {r : Runner}
    (entry : Entry system.manager.runners modelName r) :
    start os modelName system = (some (.ok true), system) := by
  have found : find modelName system = some r := entry
  rw [start, getOrStart, found]

/-- After every run, a start ensures a running runner exactly when the process of the
entry, if there is an entry, has not exited before the call. -/
theorem startEnsures_iff (os : Os) (codec : Codec) (runnerBinary modelsPath : Bytes)
    (actions : List Action) (modelName : Bytes) :
    let system := run os codec runnerBinary modelsPath actions
    StartEnsures os system modelName ↔
      ∀ r, Entry system.manager.runners modelName r →
        AliveIn r.info.pid system.world.children := by
  intro system
  constructor
  · intro ensures r entry
    have reused := @start_of_entry os _ _ _ entry
    rcases ensures true (congrArg Prod.fst reused) with ⟨other, otherEntry, alive⟩
    rw [reused] at otherEntry alive
    rw [Entry, entry, Option.some.injEq] at otherEntry
    subst otherEntry
    rcases alive with before | ⟨table, member, -⟩
    · exact before
    · simp at member
  · intro living started succeeded
    rcases @getOrStart_cases os modelName system with
      ⟨r, found, -⟩ | ⟨-, ⟨notStarted, -⟩ | ⟨r, isNew, registers, -⟩⟩
    · have entry : Entry system.manager.runners modelName r := found
      rw [start_of_entry entry]
      exact ⟨r, entry, Or.inl (living r entry)⟩
    · rw [start] at succeeded
      generalize getOrStart os modelName system = result at notStarted succeeded
      rcases result with ⟨_ | _ | r, next⟩
      · cases succeeded
      · cases succeeded
      · exact absurd rfl (notStarted r)
    · rw [start_snd]
      refine ⟨r, ?_, Or.inr registers.moment⟩
      rw [registers.runners]
      exact entry_insert.mpr (Or.inl ⟨rfl, rfl⟩)

/-- A system in which the first child listens from the fourth system call on and exits
after it, and the second one listens from the ninth on; both are given one port. -/
def portReused : Os where
  events n := if n = 3 then [(0, .listening)] else if n = 4 then [(0, .exited)]
    else if n = 8 then [(1, .listening)] else []
  fork n := if n = 2 then 7 else 8
  freePort _ := 4000
  fileExists _ := some true
  response _ := ⟨[bytes "\x7b\"embedding\":[1]\x7d"], some 200⟩
  boundElsewhere _ _ := false
  pidElsewhere _ _ := false

/-- A runner that exits between two starts is taken for a running one. -/
theorem not_startEnsures_of_exit :
    ¬StartEnsures portReused
      (run portReused JsonText.reference [] [] [.call (.start (bytes "m")), .elapse])
      (bytes "m") := by
  intro ensures
  rcases ensures true (by decide +kernel) with ⟨r, -, ⟨child, member, -, alive⟩ |
    ⟨table, member, -⟩⟩
  · have exited : ∀ child ∈ (run portReused JsonText.reference [] []
        [.call (.start (bytes "m")), .elapse]).world.children, child.phase = .exited := by
      decide +kernel
    exact alive (exited child member)
  · have none : (start portReused (bytes "m") (run portReused JsonText.reference [] []
        [.call (.start (bytes "m")), .elapse])).2.world.moments.drop
        (run portReused JsonText.reference [] []
          [.call (.start (bytes "m")), .elapse]).world.moments.length = [] := by
      decide +kernel
    rw [none] at member
    cases member

end Cllama.Core.RunnerMgr
