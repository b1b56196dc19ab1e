import Psbox.Sandbox.Visible

/-!
# The Supervisor's Mounts

What `Supervisor` (`supervisor.rs`) does to the mounts of a running sandbox: live mounts,
those of the file dialog among them, and reloads of the config. Beside its own state (the
plan, the records of live mounts) is the tree of mounts of the sandbox, as the kernel has
it. All of it is done with the mount lock held, so one after the other.

What the host has at a path is whether there is anything. What fails for other reasons is
given with each action.
-/

namespace Psbox.Sandbox

open Psbox.Foundations

/-! ## Section 1: State -/

/-- A record of a live mount. -/
structure LiveMount where
  host : Spelling
  place : Spelling
  mode : MountMode
  deriving DecidableEq, Repr

/-- What is attached: a mount of a plan, or a host path. -/
inductive Source where
  | plan (m : Mount)
  | live (host : Path) (mode : MountMode)
  deriving DecidableEq, Repr

/-- The host path that can be written through it. -/
def Source.writable : Source → Option Path
  | .plan m => m.writable
  | .live host mode => if mode = .readWrite then some host else none

abbrev Tree := MountTree String Source

structure Sup where
  plan : Plan
  /-- The records of live mounts. -/
  mounts : List LiveMount
  /-- Counter for `$XDG_RUNTIME_DIR/doc/<n>` file dialog mounts. -/
  docs : Nat
  /-- Why the sandbox needs a restart, the mounts a reload failed to apply among them. -/
  pendingRestart : List Reason
  unapplied : List Reason
  /-- What is mounted. -/
  tree : Tree
  /-- Whether the host has something at a path. -/
  host : Path → Bool

/-- What the source of a mount of a plan is opened for. -/
def Mount.present (host : Path → Bool) : Mount → Bool
  -- A required source is there, or there is no start.
  | .bind src _ _ optional | .overlay src _ optional => !optional || host src
  | .symlink _ _ | .dir _ => false
  | _ => true

/-- What the root of a plan is built of, in its order (`root::build`). Symlinks and
directories are made, not mounted; an optional source may be missing. -/
def buildRoot (host : Path → Bool) (mounts : List Mount) : Tree :=
  (mounts.filter (Mount.present host)).foldl (fun T m => MountTree.attach T m.dst (.plan m)) []

/-- A supervisor that has built the root of its plan. -/
def Sup.start (plan : Plan) (host : Path → Bool) : Sup where
  plan := plan
  mounts := []
  docs := 0
  pendingRestart := []
  unapplied := []
  tree := buildRoot host plan.mounts
  host := host

namespace Sup

/-! ## Section 2: What the Sandbox Can Write -/

/-- The writable live mounts. -/
def liveWritable (live : List LiveMount) : List Path :=
  live.filterMap fun m => if m.mode = .readWrite then some m.host.path else none

/-- The host paths the running sandbox can write: its plan's writable binds and its
writable live mounts. -/
def writableNow (s : Sup) : List Path :=
  s.plan.mounts.filterMap Mount.writable ++ liveWritable s.mounts

/-! ## Section 3: Live Mounts -/

/-- `Supervisor::mount`. Records are texts: what is not UTF-8 in a name is lost. -/
def mount (lossy : String → String) (s : Sup) (src dst : Spelling) (mode : MountMode) (ok : Bool) :
    Option Sup :=
  -- An overlay or an empty mount is for plans only.
  if mode ≠ .readOnly ∧ mode ≠ .readWrite then none
  else if ".." ∈ src ∨ ".." ∈ dst then none
  -- The sandbox's own places.
  else if dst.path = [] ∨ ["proc"] <+: dst.path ∨ ["dev"] <+: dst.path then none
  else if s.host src.path ∧ ok then
    some { s with
      tree := s.tree.attach dst.path (.live src.path mode)
      mounts := s.mounts ++ [{ host := src.map lossy, place := dst.map lossy, mode := mode }] }
  else none

/-- `Supervisor::umount`: the record that is found first goes, and what is mounted on top. -/
def umount (s : Sup) (dst : Spelling) (ok : Bool) : Option Sup :=
  match s.mounts.findIdx? fun m => m.place = dst.path with
  | none => none
  | some i =>
      -- Any failure leaves the record and the mount.
      if ok then
        (s.tree.detach dst.path).map fun T => { s with tree := T, mounts := s.mounts.eraseIdx i }
      else none

/-! ## Section 4: The File Dialog -/

/-- How a path of a plan is written. -/
def Path.spelled (p : Path) : Spelling :=
  if p = [] then [""] else p

/-- The mounts as the supervisor lists them. -/
def listed (s : Sup) : List (Option Spelling × Spelling) :=
  (s.plan.mounts.map fun m => (m.writable.map Path.spelled, Path.spelled m.dst)) ++
    s.mounts.map fun m => (if m.mode = .readWrite then some m.host else none, m.place)

/-- Where a host path already appears in the sandbox through a writable bind, if anywhere. -/
def visibleAt (s : Sup) (h : Spelling) : Option Spelling :=
  visibleThrough s.listed h

/-- `Path::file_name` -/
def fileName (h : Spelling) : Option String :=
  h.path.getLast?.filter fun name => name ≠ ".."

/-- `Supervisor::expose`: the path the sandbox is told, if any. A file that is to be saved may be made
first. -/
def expose (lossy : String → String) (s : Sup) (h : Spelling) (create made ok : Bool) : Sup × Option Spelling :=
  -- The file can neither be found nor made.
  if create ∧ !s.host h.path ∧ !made then (s, none)
  else
    -- A file that is to be saved is created empty before it is looked for.
    let s := if create then { s with host := fun p => p = h.path || s.host p } else s
    match s.visibleAt h with
    | some p => (s, some p)
    | none =>
        let s := { s with docs := s.docs + 1 }
        match fileName h with
        -- A path that ends in `..` has no file name.
        | none => (s, none)
        | some file =>
            let place := s.plan.runtimeDir ++ ["doc", toString s.docs, file]
            -- The counter goes up whether or not the mount succeeds.
            match s.mount lossy h place .readWrite ok with
            | some s' => (s', some place)
            | none => (s, none)

/-! ## Section 5: Reloads -/

/-- What fails in a reload for reasons of the host or the kernel: the checks of the new
plan, the preparation of a mount to attach, and by their number the detaches, the
attaches, and the live mounts to mount again. -/
structure Faults where
  rejected : Bool := false
  prepare : Nat → Bool := fun _ => false
  detach : Nat → Bool := fun _ => false
  place : Nat → Bool := fun _ => false
  remount : Nat → Bool := fun _ => false

/-- `prepare_plan_mount`: `none` when it fails; whether there is something to attach. -/
def prepareMount (host : Path → Bool) (m : Mount) (fault : Bool) : Option Bool :=
  match m with
  | .bind src _ _ optional | .overlay src _ optional =>
      -- An optional source that is missing is nothing to attach.
      if !host src then (if optional then some false else none) else if fault then none else some true
  | .tmpfs _ _ => if fault then none else some true
  | _ => none

/-- The mounts to attach that there is something to attach for. -/
def prepareAll (host : Path → Bool) : List Mount → (Nat → Bool) → Option (List Mount)
  | [], _ => some []
  | m :: ms, fault =>
      match prepareMount host m (fault 0), prepareAll host ms (fun i => fault (i + 1)) with
      | some true, some rest => some (m :: rest)
      | some false, some rest => some rest
      | _, _ => none

/-- Whether a failure to detach a mount is taken as that it was never attached. -/
def Mount.neverAttached : Mount → Bool
  | .bind _ _ _ optional => optional
  | _ => false

/-- Detaches mounts in order: the tree, and the places where that failed. -/
def detachAll : List Mount → (Nat → Bool) → Tree → Tree × List Path
  | [], _, T => (T, [])
  | m :: ms, fault, T =>
      match if fault 0 then none else T.detach m.dst with
      | some T' => detachAll ms (fun i => fault (i + 1)) T'
      | none =>
          let out := detachAll ms (fun i => fault (i + 1)) T
          -- A missing optional mount is no failure.
          if Mount.neverAttached m ∧ !fault 0 then out else (out.1, m.dst :: out.2)

/-- Attaches mounts in order. -/
def placeAll : List Mount → (Nat → Bool) → Tree → Tree × List Path
  | [], _, T => (T, [])
  | m :: ms, fault, T =>
      -- What cannot be attached is left out, and reported.
      if fault 0 then
        let out := placeAll ms (fun i => fault (i + 1)) T
        (out.1, m.dst :: out.2)
      else placeAll ms (fun i => fault (i + 1)) (T.attach m.dst (.plan m))

/-- Mounts live mounts again, those that can be. -/
def remountAll (lossy : String → String) : List LiveMount → (Nat → Bool) → Sup → Sup
  | [], _, s => s
  | lm :: lms, fault, s =>
      remountAll lossy lms (fun i => fault (i + 1))
        ((s.mount lossy lm.host lm.place lm.mode !(fault 0)).getD s)

/-- Whether a live mount is at or beneath the place of a mount that changes. -/
def Change.touches (c : Change) (lm : LiveMount) : Bool :=
  (c.detach ++ c.attach).any fun m => m.dst <+: lm.place.path

/-- `Supervisor::apply`, with the new plan: `none` when it fails with nothing done. -/
def apply (lossy : String → String) (s : Sup) (new : Plan) (faults : Faults) : Option Sup :=
  if faults.rejected then none
  else
    let change := s.plan.diff new
    -- Nothing is applied live when a restart is needed.
    if change.restart ≠ [] then some { s with pendingRestart := change.restart ++ s.unapplied }
    else
      (prepareAll s.host change.attach faults.prepare).map fun prepared =>
        let detached := detachAll change.detach faults.detach s.tree
        let placed := placeAll prepared faults.place detached.1
        let failed := (detached.2 ++ placed.2).map Reason.mountAt
        let lost := s.mounts.filter (Change.touches change)
        let s := { s with
          plan := new
          tree := placed.1
          mounts := s.mounts.filter fun lm => !Change.touches change lm }
        let s := remountAll lossy lost faults.remount s
        { s with unapplied := s.unapplied ++ failed, pendingRestart := s.unapplied ++ failed }

/-! ## Section 6: Runs -/

end Sup

inductive Action where
  /-- Something appears on the host. -/
  | appear (p : Path)
  | mount (src dst : Spelling) (mode : MountMode) (ok : Bool)
  | umount (dst : Spelling) (ok : Bool)
  | expose (h : Spelling) (create made ok : Bool)
  | reload (new : Plan) (faults : Sup.Faults)

/-- A request that fails changes nothing, but that the counter of file dialog mounts is
not set back. -/
def Sup.step (lossy : String → String) (s : Sup) : Action → Sup
  | .appear p => { s with host := fun q => q = p || s.host q }
  | .mount src dst mode ok => (s.mount lossy src dst mode ok).getD s
  | .umount dst ok => (s.umount dst ok).getD s
  | .expose h create made ok => (s.expose lossy h create made ok).1
  | .reload new faults => (s.apply lossy new faults).getD s

/-- A host with nothing special about it. -/
def plainHost : HostEnv where
  home := ["home", "user"]
  runtimeDir := ["run", "user", "1000"]
  root := ["home", "user", "Sandbox"]
  exe := ["usr", "bin", "psbox"]

end Psbox.Sandbox
