import Mathlib.Data.List.AList
import Psbox.Foundations.Runs

/-!
# Launches

The threads of a running supervisor that start processes for clients, and the one that stops the
sandbox when it is idle (`serve`, `serve_spawn`, `remove_finished_launches` and `watch_idle` of
`supervisor.rs`).

A step is what a thread does with the state locked, or one call to the kernel. Between two steps
of a thread anything may happen: other clients come and go, processes start others and exit, and
the config is reloaded. What a call answers is given with the step.

A client, a child and a launch are known by their numbers here. Process ids are taken again once
the child that had one is waited for.
-/

namespace Psbox.Sandbox

/-! ## Section 1: State -/

/-- How far `serve` is with a client's Spawn. -/
inductive Phase where
  /-- The client is counted, and `serve_spawn` entered. -/
  | counted
  /-- The launch is listed. -/
  | recorded
  /-- Its cgroup is created. -/
  | created
  /-- That, or the child, failed. -/
  | failed
  | unlisted
  /-- The child runs. -/
  | started
  /-- The child is listed too, and the launch marked. -/
  | entered
  /-- The client was told. It may hang up. -/
  | polling (attached : Bool)
  /-- The child has exited. -/
  | exited
  | waited
  /-- `serve_spawn` has returned. -/
  | returned
  /-- The client is not counted any more. -/
  | gone
  deriving DecidableEq, Repr

/-- A client's Spawn. -/
structure Service where
  phase : Phase := .counted
  /-- Its launch's number, once it has one. -/
  launch : Option Nat := none
  /-- The number of the child that was started, once one was. -/
  child : Option Nat := none
  deriving DecidableEq, Repr

/-- One launch, by whether its first process has started. -/
structure Launch where
  started : Bool := false
  deriving DecidableEq, Repr

inductive ChildState where
  | running
  | exited
  /-- Waited for: its pid is free. -/
  | reaped
  deriving DecidableEq, Repr

/-- The first process of a launch. -/
structure Child where
  pid : Nat
  launch : Nat
  state : ChildState := .running
  deriving DecidableEq, Repr

/-- How far `watch_idle` is with a round. -/
inductive Watch where
  | asleep
  /-- It has read the count of clients, and whether one was ever served. -/
  | sampled (clients : Nat) (served : Bool)
  /-- Launches that are over are removed. -/
  | swept (clients : Nat)
  /-- It found no client and no process. -/
  | idle
  /-- It is about to call `shutdown`. -/
  | stopping
  deriving DecidableEq, Repr

structure Launches where
  clients : Nat := 0
  /-- Whether any client was served yet. -/
  served : Bool := false
  nextLaunch : Nat := 0
  launches : AList fun _ : Nat => Launch := ∅
  /-- Processes by pid; each with the client it was started for (proof-only). -/
  spawned : AList fun _ : Nat => Nat := ∅
  services : List Service := []
  children : List Child := []
  /-- The launches of the processes that the children started. -/
  others : List Nat := []
  watch : Watch := .asleep
  /-- Whether there are reasons for a restart. -/
  pending : Bool := false
  /-- Whether the plan has a timeout of zero. -/
  untimed : Bool := false
  /-- `watch_idle` has called `shutdown`. -/
  stopped : Bool := false

namespace Launches

/-- Whether a launch's cgroup has a process. -/
def populated (s : Launches) (n : Nat) : Bool :=
  n ∈ s.others || s.children.any fun ch => ch.launch = n ∧ ch.state = .running

/-- Whether the workload has a process. -/
def workload (s : Launches) : Bool :=
  !s.others.isEmpty || s.children.any fun ch => ch.state = .running

/-! ## Section 2: Serving a Spawn -/

def put (s : Launches) (c : Nat) (v : Service) : Launches :=
  { s with services := s.services.set c v }

def setChild (s : Launches) (k : Nat) (state : ChildState) : Launches :=
  { s with children := s.children.modify k fun ch => { ch with state := state } }

end Launches

/-- What `poll_readable` and what is then received say. -/
inductive Polled where
  | error
  /-- The child has exited. -/
  | child
  /-- A signal to pass on, or another request, which is refused. -/
  | request
  /-- The client has gone. -/
  | hangup
  deriving DecidableEq, Repr

/-- A step of `serve`. -/
inductive Serving where
  /-- An early return, with nothing recorded. -/
  | refuse
  | record
  | create (ok : Bool)
  /-- The child's pid; `none` when it fails, with no child left. -/
  | start (pid : Option Nat)
  | unlist
  /-- The launch's cgroup is removed, if it can be. -/
  | removeCgroup
  | enter
  /-- `Spawned` is sent to the client, or that fails. -/
  | tell (sent : Bool)
  | poll (polled : Polled)
  | wait (ok : Bool)
  | forget
  | leave
  deriving DecidableEq, Repr

namespace Launches

/-- A child starts, with a pid that no child has which was not waited for. -/
def startChild (s : Launches) (c : Nat) (v : Service) (n pid : Nat) : Option Launches :=
  -- A pid is free once the process that had it was waited for.
  if s.children.any fun ch => ch.pid = pid ∧ ch.state ≠ .reaped then none
  else
    let v := { v with phase := .started, child := some s.children.length }
    let child : Child := { pid := pid, launch := n }
    let s := { s with children := s.children ++ [child] }
    some (s.put c v)

/-- The child is listed by its pid, and the launch marked as started. -/
def enterChild (s : Launches) (c : Nat) (v : Service) (n k : Nat) : Option Launches :=
  (s.children[k]?).map fun ch =>
    let launches := match s.launches.lookup n with
      | some l => s.launches.insert n { l with started := true }
      | none => s.launches
    let s := { s with spawned := s.spawned.insert ch.pid c, launches := launches }
    s.put c { v with phase := .entered }

/-- One step of the thread of a client; `none` when the thread has another to do. -/
def serve (s : Launches) (c : Nat) (v : Service) (a : Serving) : Option Launches :=
  match v.phase, a, v.launch, v.child with
  -- A request that is refused before anything was recorded.
  | .counted, .refuse, _, _ => some (s.put c { v with phase := .returned })
  | .counted, .record, _, _ =>
      let n := s.nextLaunch + 1
      let s := { s with nextLaunch := n, launches := s.launches.insert n {} }
      some (s.put c { v with phase := .recorded, launch := some n })
  | .recorded, .create ok, _, _ =>
      -- The launch is listed before its cgroup is there.
      some (s.put c { v with phase := if ok then .created else .failed })
  | .created, .start none, _, _ => some (s.put c { v with phase := .failed })
  | .created, .start (some pid), some n, _ => s.startChild c v n pid
  | .failed, .unlist, some n, _ =>
      let s := { s with launches := s.launches.erase n }
      some (s.put c { v with phase := .unlisted })
  | .unlisted, .removeCgroup, _, _ => some (s.put c { v with phase := .returned })
  | .started, .enter, some n, some k => s.enterChild c v n k
  | .entered, .tell sent, _, _ =>
      -- A client that cannot be told has gone, and the child runs on.
      some (s.put c { v with phase := if sent then .polling true else .returned })
  | .polling _, .poll .error, _, _ => some (s.put c { v with phase := .returned })
  | .polling _, .poll .child, _, some k =>
      -- The child's exit is what the descriptor says.
      if (s.children[k]?).any fun ch => ch.state = .exited then
        some (s.put c { v with phase := .exited })
      else none
  | .polling true, .poll .request, _, _ => some s
  -- A client that hangs up is not polled any longer, the child is.
  | .polling true, .poll .hangup, _, _ => some (s.put c { v with phase := .polling false })
  | .exited, .wait ok, _, some k =>
      let s := if ok then s.setChild k .reaped else s
      some (s.put c { v with phase := .waited })
  | .waited, .forget, _, some k =>
      (s.children[k]?).map fun ch =>
        let s := { s with spawned := s.spawned.erase ch.pid }
        s.put c { v with phase := .returned }
  | .returned, .leave, _, _ =>
      let s := { s with clients := s.clients - 1 }
      some (s.put c { v with phase := .gone })
  | _, _, _, _ => none

/-! ## Section 3: Watching -/

end Launches

/-- What becomes of the cgroup of a launch that is over. -/
inductive Removal where
  | removed
  /-- A process entered meanwhile. -/
  | busy
  /-- It cannot be removed, and is listed no longer. -/
  | failed
  deriving DecidableEq, Repr

/-- A step of `watch_idle`. Whether a cgroup's population can be read is given; when it cannot,
the code takes it for empty. -/
inductive Watching where
  | sample
  /-- No command was requested: whether that has been so for long enough. -/
  | unserved (elapsed : Bool)
  | sweep (readable : Nat → Bool) (removal : Nat → Removal)
  | look (readable : Bool)
  /-- Whether the sandbox has been idle for its timeout. -/
  | decide (elapsed : Bool)
  | stop

namespace Launches

/-- The launches that are over and whose cgroups are gone, or given up. -/
def finished (s : Launches) (readable : Nat → Bool) (removal : Nat → Removal) : List Nat :=
  s.launches.entries.filterMap fun e =>
    -- A launch whose child was never entered is kept.
    if e.2.started ∧ !(readable e.1 && s.populated e.1) ∧ removal e.1 ≠ .busy then some e.1 else none

/-- `remove_finished_launches`. -/
def removeFinishedLaunches (s : Launches) (readable : Nat → Bool) (removal : Nat → Removal) :
    Launches :=
  { s with launches := (s.finished readable removal).foldl (fun L n => L.erase n) s.launches }

/-- One step of `watch_idle`. -/
def watchIdle (s : Launches) (a : Watching) : Option Launches :=
  match s.watch, a with
  | .asleep, .sample => some { s with watch := .sampled s.clients s.served }
  | .sampled clients served, .unserved elapsed =>
      -- With a timeout of zero, and nobody served yet, only the time since the start counts.
      if s.untimed ∧ !served then
        -- This is the way out that looks at the clients alone.
        if clients = 0 ∧ elapsed then some { s with watch := .stopping }
        else some { s with watch := .asleep }
      else none
  | .sampled clients served, .sweep readable removal =>
      -- Otherwise launches that are over are removed first.
      if s.untimed ∧ !served then none
      else some { s.removeFinishedLaunches readable removal with watch := .swept clients }
  | .swept clients, .look readable =>
      -- The clients counted in this round, and the processes there are now.
      if clients > 0 ∨ (readable && s.workload) then some { s with watch := .asleep }
      else some { s with watch := .idle }
  | .idle, .decide elapsed =>
      -- A restart that is wanted waits for no timeout.
      if s.pending ∨ elapsed then some { s with watch := .stopping }
      else some { s with watch := .asleep }
  | .stopping, .stop => some { s with stopped := true }
  | _, _ => none

/-! ## Section 4: Steps -/

end Launches

/-- What happens to a running sandbox. -/
inductive Move where
  /-- A client's Spawn is read, and the client counted. -/
  | begin
  | serve (c : Nat) (a : Serving)
  /-- A child exits. -/
  | exit (k : Nat)
  /-- A process of a launch starts another, or one of those exits. -/
  | fork (n : Nat)
  | finish (n : Nat)
  | watch (a : Watching)
  | reload (pending untimed : Bool)

namespace Launches

/-- There is no next state once the sandbox is stopped. -/
def step (s : Launches) (a : Move) : Option Launches :=
  -- After `shutdown` nothing happens any more.
  if s.stopped then none
  else
    match a with
    | .begin =>
        some { s with
          clients := s.clients + 1
          served := true
          services := s.services ++ [{}] }
    | .serve c a => (s.services[c]?).bind fun v => s.serve c v a
    | .exit k =>
        if (s.children[k]?).any fun ch => ch.state = .running then some (s.setChild k .exited)
        else none
    | .fork n => if s.populated n then some { s with others := n :: s.others } else none
    | .finish n => if n ∈ s.others then some { s with others := s.others.erase n } else none
    | .watch a => s.watchIdle a
    | .reload pending untimed => some { s with pending := pending, untimed := untimed }

/-- Whether a client is being served. -/
def inService (v : Service) : Bool :=
  v.phase ≠ .gone

end Launches

end Psbox.Sandbox
