import Cllama.Boundary.ClientCommands

/-!
# The end of a server

When `cmd_serve` ends, it stops the router, which then takes no more requests, and stops all
runners.  The workers of streams are detached threads of the oatpp router: nobody waits for those
that have not called the manager yet, and such a call starts a runner if there is none.
-/

namespace Cllama.Boundary

open Cllama.Library Cllama.Core RunnerMgr Cllama.Platform Cllama.Api

variable {os : Os} {libraries : Libraries}

/-- The server once all runners have been stopped. -/
def shutdown (os : Os) (server : Server) : Server :=
  { server with system := stopAll os server.system }

/-- What goes on behind a router that has been stopped. -/
def draining (os : Os) (libraries : Libraries) (server : Server) :
    Machine Server ServerAction where
  Initial state := state = shutdown os server
  step state
    | .request _ => none
    | action => state.step .oatpp os libraries action

/-! ## How many runners there are -/

theorem children_length {system : System} (consistent : Consistent system) :
    system.world.children.length = (registered system).length := by
  have same := (registered_perm consistent).length_eq
  rw [List.length_map, List.length_map] at same
  exact same.symm

/-- A call of the manager adds one runner at most. -/
theorem registered_length_le {launch : Option Launch} {system next : System}
    (launching : Launching os launch system next) (after : Consistent next) :
    (registered next).length ≤ (registered system).length + 1 := by
  have covered : ∃ fresh : List Int, fresh.length ≤ 1 ∧
      (registered next).map (·.info.pid) ⊆ fresh ++ (registered system).map (·.info.pid) := by
    cases launching with
    | kept entries =>
        refine ⟨[], Nat.zero_le 1, ?_⟩
        rw [List.nil_append]
        apply List.map_subset
        intro r isRegistered
        rcases mem_registered.mp isRegistered with ⟨name, entry⟩
        exact mem_registered.mpr ⟨name, entries name r entry⟩
    | added made r isLaunch launched runners =>
        refine ⟨[r.info.pid], Nat.le_refl 1, ?_⟩
        have oneMore : registered next ⊆ r :: registered system := by
          intro other isRegistered
          rcases mem_registered.mp isRegistered with ⟨name, entry⟩
          rw [runners] at entry
          rcases entry_insert.mp entry with ⟨-, rfl⟩ | ⟨-, old⟩
          · exact List.mem_cons_self
          · exact List.mem_cons_of_mem _ (mem_registered.mpr ⟨name, old⟩)
        exact List.map_subset _ oneMore
  rcases covered with ⟨fresh, single, subset⟩
  have bound := ((registered_nodup after).subperm subset).length_le
  rw [List.length_append, List.length_map, List.length_map] at bound
  omega

/-- The runners and the workers that are left. -/
structure Draining (bound : Nat) (state : Server) : Prop where
  consistent : Consistent state.system
  left : state.system.world.children.length + state.workers.length ≤ bound

/-- A worker that calls the manager may leave a runner behind, and goes. -/
theorem Draining.step {bound : Nat} {server state next : Server} {action : ServerAction}
    (draining : Draining bound state)
    (taken : (Boundary.draining os libraries server).step state action = some next) :
    Draining bound next := by
  have left := draining.left
  rw [children_length draining.consistent] at left
  cases action with
  | request request => cases taken
  | elapse =>
      cases taken
      have after : Consistent (act os libraries.codec state.system .elapse) :=
        draining.consistent.act .elapse
      refine ⟨after, ?_⟩
      rw [children_length after]
      exact left
  | work worker onToken =>
      rcases Option.map_eq_some_iff.mp taken with ⟨command, found, rfl⟩
      have after : Consistent
          (act os libraries.codec state.system (.call (command.call onToken))) :=
        draining.consistent.act _
      have added := registered_length_le
        (@perform_launching os libraries.codec (command.call onToken) state.system) after
      have waiting : worker < state.workers.length := (List.getElem?_eq_some_iff.mp found).1
      have gone := List.length_eraseIdx_of_lt waiting
      refine ⟨after, ?_⟩
      rw [children_length after]
      change (registered (perform os libraries.codec state.system (command.call onToken))).length +
        (state.workers.eraseIdx worker).length ≤ bound
      omega

theorem draining_invariant {server : Server} (consistent : Consistent server.system) :
    (draining os libraries server).Invariant (Draining server.workers.length) where
  initial := by
    rintro state rfl
    refine ⟨@Consistent.act os libraries.codec _ consistent (.call .stopAll), ?_⟩
    rw [shutdown, stopAll_children libraries.codec consistent]
    simp
  step _ _ _ draining taken := draining.step taken

/-- A request for a stream. -/
def streamRequest : HttpRequest where
  method := .post
  path := bytes "/v1/completions"
  body := bytes "\x7b\"model\":\"m\",\"prompt\":\"\",\"stream\":true\x7d"
  stamps := ⟨0, 0⟩
  directory := none

/-- A server that is stopped while the worker of a stream has yet to call the manager. -/
def streamAccepted : Server :=
  Server.receive .oatpp oneChild .reference ⟨.create [] (bytes "/models"), []⟩ streamRequest

/-- What the worker leaves behind. -/
def orphaned : Server :=
  ((draining oneChild .reference streamAccepted).run (shutdown oneChild streamAccepted)
    [.work 0 none]).getD (shutdown oneChild streamAccepted)

end Cllama.Boundary
