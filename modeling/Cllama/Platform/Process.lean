import Cllama.Library.Http

/-!
# The operating system around the server

The server's children, their ports, and the system calls by which the runner manager
deals with them.  What is not decided by the server is an `Os`: which child moves on
before a system call, which pid a fork returns, which port is free, whether a file
exists, and what answers a request.  It is indexed by the number of the system call, so
that a child may crash at any moment, also in the middle of an operation.
-/

namespace Cllama.Platform

open Cllama.Library Http

/-- The life of a runner process: it loads its model, listens on its port, may stop to
listen before it exits, and stays in the process table until it is waited for. -/
inductive Phase where
  | starting
  | listening
  | draining
  | exited
  deriving DecidableEq

/-- A process the server has forked.  The serial tells apart processes that are given the
same pid one after another; the port is the one its arguments name. -/
structure Process where
  serial : Nat
  pid : Int
  port : Int
  deriving DecidableEq

/-- A process that has not been waited for. -/
structure Child extends Process where
  phase : Phase
  deriving DecidableEq

inductive Signal where
  | term
  | kill
  deriving DecidableEq

/-- What the system and the rest of the world decide, by the number of the system call. -/
structure Os where
  events : Nat → List (Nat × Phase)
  fork : Nat → Int
  freePort : Nat → Int
  fileExists : Nat → Option Bool
  response : Nat → Exchange
  boundElsewhere : Nat → Int → Bool
  pidElsewhere : Nat → Int → Bool

/-- A system call that names a process, with the serial of the child it reached; none if
the pid was not that of a child waiting to be reaped. -/
inductive Event where
  | signalled (child : Option Nat) (signal : Signal)
  | reaped (child : Option Nat)
  deriving DecidableEq

/-- Who answers a request to a port: nobody, a process that is no child, or the child with
this pid. -/
inductive Answerer where
  | nobody
  | stranger
  | child (pid : Int)
  deriving DecidableEq

/-- The children of the server.  The history holds the tables after each system call and
the events so far. -/
structure World where
  clock : Nat
  forks : Nat
  children : List Child
  moments : List (List Child)
  log : List Event
  deriving DecidableEq

/-- A server without children. -/
def World.fresh : World where
  clock := 0
  forks := 0
  children := []
  moments := []
  log := []

/-- Whether a child listens on a port. -/
def listeningOn (port : Int) (child : Child) : Bool :=
  decide (child.phase = .listening) && decide (child.port = port)

/-- A child moves on to a later phase.  One that finds its port taken exits instead of
listening. -/
def Child.advance (taken : Bool) (target : Phase) (child : Child) : Child :=
  match child.phase, target with
  | .starting, .listening => { child with phase := if taken then .exited else .listening }
  | .listening, .draining => { child with phase := .draining }
  | .exited, _ => child
  | _, .exited => { child with phase := .exited }
  | _, _ => child

/-- One child moves on. -/
def happen (children : List Child) (event : Nat × Phase) : List Child :=
  children.map fun child =>
    if child.serial = event.1 then
      child.advance (children.any (listeningOn child.port)) event.2
    else child

namespace World

variable (os : Os)

/-- The processes in the table. -/
def processes (world : World) : List Process :=
  world.children.map Child.toProcess

/-- The child with a pid. -/
def childWithPid (world : World) (pid : Int) : Option Nat :=
  (world.processes.find? (·.pid = pid)).map Process.serial

/-- The time up to a system call. -/
def tick (world : World) : World :=
  let children := (os.events world.clock).foldl happen world.children
  { world with
    clock := world.clock + 1
    children := children
    moments := world.moments ++ [children] }

/-- `spawn_process`.  A pid that the system cannot return, such as one in the table, counts
as a failed fork. -/
def spawnProcess (_binary : Bytes) (_args : List Bytes) (port : Int) (world : World) :
    Int × World :=
  let pid := os.fork world.clock
  let world := world.tick os
  if pid ≤ 0 ∨ pid ∈ world.processes.map Process.pid then (-1, world)
  else
    let children := world.children ++ [⟨⟨world.forks, pid, port⟩, .starting⟩]
    (pid, { world with
      forks := world.forks + 1
      children := children
      moments := world.moments ++ [children] })

/-- `kill_process`.  Whether and when the process exits is up to the system. -/
def killProcess (pid : Int) (signal : Signal) (world : World) : World :=
  let world := world.tick os
  { world with log := world.log ++ [.signalled (world.childWithPid pid) signal] }

/-- `wait_process`, which returns once the process has exited and removes it from the
table. -/
def waitProcess (pid : Int) (world : World) : World :=
  let world := world.tick os
  let children := world.children.filter (·.pid ≠ pid)
  { world with
    children := children
    moments := world.moments ++ [children]
    log := world.log ++ [.reaped (world.childWithPid pid)] }

/-- `process_is_alive`: the null signal also reaches a child that has exited and not been
waited for. -/
def processIsAlive (pid : Int) (world : World) : Bool × World :=
  let elsewhere := os.pidElsewhere world.clock pid
  let world := world.tick os
  ((world.childWithPid pid).isSome || elsewhere, world)

/-- `find_free_port`: a port that no live process is bound to, or zero. -/
def findFreePort (world : World) : Int × World :=
  let port := os.freePort world.clock
  let elsewhere := os.boundElsewhere world.clock port
  let world := world.tick os
  if port ≤ 0 ∨ world.children.any (listeningOn port) ∨ elsewhere then (0, world)
  else (port, world)

/-- `std::filesystem::exists`; none is an exception. -/
def exists? (_path : Bytes) (world : World) : Option Bool × World :=
  (os.fileExists world.clock, world.tick os)

/-- An HTTP request to a port of this host, with what is listening there. -/
def request (port : Int) (_path _body : Bytes) (world : World) :
    (Answerer × Exchange) × World :=
  let response := os.response world.clock
  let elsewhere := os.boundElsewhere world.clock port
  let world := world.tick os
  match world.children.find? (listeningOn port) with
  | some child => ((.child child.pid, response), world)
  | none =>
      if elsewhere then ((.stranger, response), world)
      else ((.nobody, ⟨[], none⟩), world)

end World

end Cllama.Platform
