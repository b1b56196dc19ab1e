import Mathlib.Data.List.Sort
import Mathlib.Tactic.Common
import Psbox.Sandbox.Identity

/-!
# Plans of a Sandbox

`Plan::build` and `diff` (`plan.rs`): the mounts that a config asks for on a host, and
what has to change in a running sandbox to get from one plan to another.

Paths are absolute and normalized, as lists of their names; `starts_with` is the prefix
relation. Of a plan there is what its mounts are made with and what `diff` compares.
-/

namespace Psbox.Sandbox

abbrev Path := List String

/-! ## Section 1: Configs -/

inductive MountMode where
  | readWrite
  | readOnly
  /-- A read-only source with a private writable layer that is discarded. -/
  | overlay
  /-- An empty tmpfs that hides whatever is at the destination. -/
  | empty
  deriving DecidableEq, Repr

/-- The device classes. Only the audio sockets are mounts. -/
inductive DeviceClass where
  | gpu
  | camera
  | gamepad
  | alsa
  | securityKey
  | usb (vendor product : Nat)
  | audio
  deriving DecidableEq, Repr

inductive Cache where
  | temporary
  | persistent
  deriving DecidableEq, Repr

inductive Home where
  /-- A host directory, bound read-write. -/
  | path (path : Path) (cache : Cache)
  | temporary
  deriving DecidableEq, Repr

inductive DbusMode where
  | portal
  | host
  deriving DecidableEq, Repr

structure Dbus where
  mode : DbusMode
  talk : List String := []
  deriving DecidableEq, Repr

/-- The network a config asks for. -/
inductive NetworkSetting where
  | automatic
  | isolated
  | host
  | loopback
  deriving DecidableEq, Repr

/-- The network a sandbox gets. -/
inductive Network where
  | host
  | isolated
  | loopback
  deriving DecidableEq, Repr

inductive XwaylandMode where
  | builtin
  | satellite
  deriving DecidableEq, Repr

inductive XwaylandScale where
  | native
  | roundUp
  | compositor
  deriving DecidableEq, Repr

structure Xwayland where
  mode : XwaylandMode
  scale : XwaylandScale := .native
  deriving DecidableEq, Repr

inductive OpenIn where
  | host
  | sandbox
  deriving DecidableEq, Repr

structure Links where
  http : OpenIn := .host
  https : OpenIn := .host
  mailto : OpenIn := .host
  deriving DecidableEq, Repr

/-- The schemes whose links go to the host. -/
def Links.hostSchemes (l : Links) : List String :=
  ([("http", l.http), ("https", l.https), ("mailto", l.mailto)].filter fun x => x.2 = .host).map Prod.fst

structure MountSpec where
  source : Option Path
  destination : Path
  mode : MountMode
  /-- Skip silently when the source is missing. -/
  optional : Bool := false
  deriving DecidableEq, Repr

/-- A config, or that of a task. The mounts are in the order of their names. -/
structure SpecBody where
  allow32bit : Bool := false
  home : Option Home := some .temporary
  devices : List DeviceClass := []
  dbus : Option Dbus := none
  network : NetworkSetting := .automatic
  display : Bool := true
  xwayland : Option Xwayland := none
  links : Links := {}
  mount : List (String × MountSpec) := []
  deriving DecidableEq, Repr

structure Spec extends SpecBody where
  /-- The config of each task, with the task's overrides. -/
  task : List (String × SpecBody) := []
  deriving DecidableEq, Repr

/-- The host paths a config lets its sandbox write: a path home and read-write mounts. -/
def SpecBody.writable (s : SpecBody) : List Path :=
  (match s.home with
    -- A home of its own is writable as a whole.
    | some (.path path _) => [path]
    | _ => []) ++
    s.mount.filterMap fun m => if m.2.mode = .readWrite then m.2.source else none

/-- Those of the sandbox and its tasks. -/
def Spec.writable (s : Spec) : List Path :=
  s.toSpecBody.writable ++ s.task.flatMap fun t => t.2.writable

/-- Host facts the plan depends on. -/
structure HostEnv where
  home : Path
  runtimeDir : Path
  waylandSocket : Option Path := none
  sessionBus : Option Path := none
  /-- The sandbox root. -/
  root : Path
  pasta : Bool := true
  exe : Path
  deriving DecidableEq, Repr

/-! ## Section 2: Plans -/

inductive Mount where
  | bind (src dst : Path) (ro optional : Bool)
  | tmpfs (dst : Path) (mode : Nat)
  | overlay (lower dst : Path) (optional : Bool)
  | symlink (target : String) (dst : Path)
  | dir (dst : Path)
  | proc (dst : Path)
  | dev (dst : Path)
  | file (dst : Path) (content : String)
  deriving DecidableEq, Repr

def Mount.dst : Mount → Path
  | .bind _ dst _ _ | .tmpfs dst _ | .overlay _ dst _ | .symlink _ dst | .dir dst | .proc dst
  | .dev dst | .file dst _ => dst

/-- The host path that a mount lets the sandbox write. -/
def Mount.writable : Mount → Option Path
  | .bind src _ false _ => some src
  | _ => none

structure Plan where
  /-- Host directory backing the private home. -/
  hostHomeDir : Option Path
  home : Path
  mounts : List Mount
  allow32bit : Bool
  dbus : Option DbusMode
  dbusTalk : List String
  xwayland : Option XwaylandMode
  xwaylandScale : XwaylandScale
  openUrls : List String
  network : Network
  runtimeDir : Path
  sandboxRoot : Path
  deriving DecidableEq, Repr

def psboxDir : Path := ["run", "psbox"]

/-- `x11::SOCKET_DIR`. -/
def socketDir : Path := ["tmp", ".X11-unix"]

def pastaDns : String := "169.254.1.1"

/-- The network of a setting; `none` when `isolated` was chosen and pasta is missing. -/
def resolveNetwork (setting : NetworkSetting) (pasta : Bool) : Option Network :=
  match setting with
  -- Without pasta there is no way to isolate.
  | .isolated => if pasta then some .isolated else none
  | .host => some .host
  | .loopback => some .loopback
  | .automatic => if pasta then some .isolated else some .host

/-- The link handler's `mimeapps.list` and desktop entry, claiming `schemes`. -/
def linkHandler (schemes : List String) : String × String :=
  let defaults := String.join (schemes.map fun s => "x-scheme-handler/" ++ s ++ "=psbox-open-uri.desktop\n")
  let types := String.join (schemes.map fun s => "x-scheme-handler/" ++ s ++ ";")
  ("[Default Applications]\n" ++ defaults,
    "[Desktop Entry]\nType=Application\nName=Open on the host\n" ++
      "Comment=Opens links in the host's default app through the OpenURI portal\n" ++
      "Exec=/run/psbox/bin/psbox open-uri -- %u\nNoDisplay=true\nMimeType=" ++ types ++ "\n")

/-! ## Section 3: Building a Plan -/

inductive BuildError where
  | noTask (name : String)
  | waylandSocketNoName
  deriving DecidableEq, Repr

namespace Plan

def ro (p : Path) (optional : Bool) : Mount := .bind p p true optional

/-- What every sandbox has. -/
def baseMounts : List Mount :=
  [ro ["usr"] false, ro ["etc"] false, ro ["opt"] true, ro ["sys"] false,
    .symlink "usr/bin" ["bin"], .symlink "usr/bin" ["sbin"], .symlink "usr/lib" ["lib"],
    .symlink "usr/lib" ["lib64"],
    .proc ["proc"], .dev ["dev"], .tmpfs ["tmp"] 0o1777, .dir ["var"], .tmpfs ["var", "tmp"] 0o1777,
    ro ["var", "cache", "fontconfig"] true]

def networkMounts : Network → List Mount
  | .host => [ro ["run", "systemd", "resolve"] true]
  -- Name lookups go to pasta's DNS forwarder.
  | .isolated => [.file ["etc", "resolv.conf"] ("nameserver " ++ pastaDns ++ "\n")]
  | .loopback => []

def audioMounts (host : HostEnv) : List Mount :=
  [["pipewire-0"], ["pulse", "native"]].map fun rel =>
    .bind (host.runtimeDir ++ rel) (host.runtimeDir ++ rel) true true

def homeMounts (home : Path) : Option Home → List Mount
  | some (.path path .temporary) =>
      [.bind path home false false, .tmpfs (home ++ [".cache"]) 0o700]
  | some (.path path .persistent) => [.bind path home false false]
  | some .temporary => [.tmpfs home 0o700]
  | none => []

/-- A share of the config; `none` where psbox sets up the place itself. -/
def share (m : MountSpec) : Option Mount :=
  let dst := m.destination
  -- The root and these two are set up by psbox itself.
  if dst = [] ∨ ["proc"] <+: dst ∨ ["dev"] <+: dst then none
  else
    match m.mode, m.source with
    | .readOnly, some src => some (.bind src dst true m.optional)
    | .readWrite, some src => some (.bind src dst false m.optional)
    | .overlay, some src => some (.overlay src dst m.optional)
    -- An empty mount, or one without a source, hides what is there.
    | .empty, _ | _, none => some (.tmpfs dst 0o755)

/-- The shares, parents before children. -/
def shares (mount : List (String × MountSpec)) : List Mount :=
  (mount.filterMap fun m => share m.2).insertionSort fun m m' => m.dst.length ≤ m'.dst.length

def hostBusMounts (host : HostEnv) (dbus : Option DbusMode) : List Mount :=
  match dbus, host.sessionBus with
  -- As the host has it, with what belongs to it.
  | some .host, some src =>
      [.bind src (host.runtimeDir ++ ["bus"]) true false, ro ["run", "dbus"] true,
        ro ["var", "lib", "dbus"] true]
  | _, _ => []

def handlerMounts (host : HostEnv) (openUrls : List String) (xwayland : Option XwaylandMode) :
    List Mount :=
  (if openUrls ≠ [] ∨ xwayland = some .builtin then
      [.bind host.exe (psboxDir ++ ["bin", "psbox"]) true false]
    else []) ++
    if openUrls ≠ [] then
      [.file (psboxDir ++ ["config", "mimeapps.list"]) (linkHandler openUrls).1,
        .file (psboxDir ++ ["share", "applications", "psbox-open-uri.desktop"]) (linkHandler openUrls).2]
    else []

/-- The config that an identity runs. -/
def bodyFor (id : Identity) (spec : Spec) : Except BuildError SpecBody :=
  match id with
  | .task _ name =>
      match spec.task.lookup name with
      | some body => .ok body
      | none => .error (.noTask name)
  | .instance_ _ _ | .unnamed _ => .ok spec.toSpecBody

/-- The Wayland socket in the sandbox, where the host has one and the config asks for it. -/
def waylandMounts (host : HostEnv) (socket : Option Path) : Except BuildError (List Mount) :=
  match socket with
  | none => .ok []
  | some sock =>
      match sock.getLast? with
      | none => .error .waylandSocketNoName
      | some file => .ok [.bind sock (host.runtimeDir ++ [file]) true true]

def build (id : Identity) (spec : Spec) (host : HostEnv) : Except BuildError Plan := do
  let body ← bodyFor id spec
  let network := (resolveNetwork body.network host.pasta).getD .isolated
  -- A display needs the host's Wayland socket.
  let socket := if body.display then host.waylandSocket else none
  let xwayland := if socket.isSome then body.xwayland.map Xwayland.mode else none
  let wayland ← waylandMounts host socket
  let dbus := body.dbus.map Dbus.mode
  -- Links go through the bus.
  let openUrls := if dbus.isSome then body.links.hostSchemes else []
  .ok
    { hostHomeDir := match body.home with
        | some (.path path _) => some path
        | _ => none
      home := host.home
      mounts := baseMounts ++ networkMounts network ++
        [ro ["run", "udev"] true, .tmpfs host.runtimeDir 0o700] ++ wayland ++
        (if body.devices.contains .audio then audioMounts host else []) ++
        homeMounts host.home body.home ++ hostBusMounts host dbus ++
        handlerMounts host openUrls xwayland ++ shares body.mount ++
        -- The X socket directory is the sandbox's own even when `/tmp` is a share.
        if xwayland.isSome then [.tmpfs socketDir 0o1777] else []
      allow32bit := body.allow32bit
      dbus := dbus
      dbusTalk := if dbus = some .portal then (body.dbus.map Dbus.talk).getD [] else []
      xwayland := xwayland
      xwaylandScale := if xwayland = some .builtin then
        (body.xwayland.map Xwayland.scale).getD .native else .native
      openUrls := openUrls
      network := network
      runtimeDir := host.runtimeDir
      sandboxRoot := host.root }

/-! ## Section 4: Guards -/

/-- The path's entry in the sandbox root. -/
def rootEntry (plan : Plan) (path : Path) : Option Path :=
  -- The entry at or above the path, not beneath it.
  if plan.sandboxRoot <+: path then
    (path.drop plan.sandboxRoot.length).head?.map fun first => plan.sandboxRoot ++ [first]
  else none

/-- The shortest of some paths, the first of them if several are. -/
def shortest (ps : List Path) : Option Path :=
  -- The first of two of one length stays.
  ps.foldl (fun best p =>
    match best with
    | some b => if p.length < b.length then some p else some b
    | none => some p) none

/-- The writable places of a plan, and the path's entry in the sandbox root, that the path
is strictly inside. -/
def guardsOf (plan : Plan) (path : Path) : List Path :=
  (plan.mounts.filterMap Mount.writable ++ (plan.rootEntry path).toList).filter
    fun g => g <+: path ∧ path ≠ g

/-- The directory beneath which a host path is opened without following symlinks. -/
def sourceGuard (plan : Plan) (path : Path) : Option Path :=
  shortest (plan.guardsOf path)

end Plan

/-! ## Section 5: Changes -/

/-- Why a plan needs a restart. -/
inductive Reason where
  | home
  | dbus
  | dbusTalk
  | xwayland
  | xwaylandScale
  | network
  | allow32bit
  | links
  | homeCache
  | mountAt (dst : Path)
  /-- A device that could not be removed: its name and its numbers. -/
  | removing (devname : String) (device : Nat × Nat)
  deriving DecidableEq, Repr

/-- How a running sandbox gets from one plan to another. -/
structure Change where
  /-- When there are any, nothing is applied live. -/
  restart : List Reason := []
  /-- Mounts to detach, in this order. -/
  detach : List Mount := []
  /-- Mounts to attach, in this order. -/
  attach : List Mount := []
  deriving DecidableEq, Repr

/-- Mounts that can be attached and detached in a running sandbox. -/
def liveMount : Mount → Bool
  | .bind _ dst _ _ | .tmpfs dst _ => dst ≠ socketDir
  | _ => false

namespace Plan

def cacheTmpfs (p : Plan) : Bool :=
  p.mounts.contains (.tmpfs (p.home ++ [".cache"]) 0o700)

/-- What differs and is not a mount. -/
def settingReasons (old new : Plan) : List Reason :=
  let home := old.hostHomeDir ≠ new.hostHomeDir ∨ old.home ≠ new.home
  (if home then [.home] else []) ++
    (if old.dbus ≠ new.dbus then [.dbus] else []) ++
    (if old.dbusTalk ≠ new.dbusTalk then [.dbusTalk] else []) ++
    (if old.xwayland ≠ new.xwayland then [.xwayland] else []) ++
    (if old.xwaylandScale ≠ new.xwaylandScale ∧ old.xwayland = new.xwayland then [.xwaylandScale] else []) ++
    (if old.network ≠ new.network then [.network] else []) ++
    (if old.allow32bit ≠ new.allow32bit then [.allow32bit] else []) ++
    (if old.openUrls ≠ new.openUrls ∧ old.dbus = new.dbus then [.links] else []) ++
    (if ¬home ∧ old.cacheTmpfs ≠ new.cacheTmpfs then [.homeCache] else [])

/-- The places of the mounts that only one of the plans has. -/
def changed (old new : Plan) : List Path :=
  (old.mounts.filter (fun m => m ∉ new.mounts) ++ new.mounts.filter (fun m => m ∉ old.mounts)).map Mount.dst

/-- Whether a mount is beneath one of these places. -/
def beneath (places : List Path) (m : Mount) : Bool :=
  places.any fun d => m.dst ≠ d ∧ d <+: m.dst

/-- The mounts of the old plan that go: those the new one lacks, and those beneath a change. -/
def dropped (old new : Plan) : List Mount :=
  old.mounts.reverse.filter fun m => m ∉ new.mounts ∨ beneath (changed old new) m

/-- The mounts of the new plan that come. -/
def added (old new : Plan) : List Mount :=
  new.mounts.filter fun m => m ∉ old.mounts ∨ beneath (changed old new) m

def mountReasons (ms : List Mount) : List Reason :=
  (ms.filter fun m => !liveMount m).map fun m => .mountAt m.dst

/-- Reasons that show up as mounts too, reported once. -/
def retained (new : Plan) (reasons : List Reason) : List Reason :=
  -- A reason that is about a place, against what explains it.
  let keep (r : Reason) (drop : Path → Bool) : Bool :=
    match r with
    | .mountAt dst => !drop dst
    | _ => true
  -- Xwayland brings its socket directory with it.
  let rs := if .xwayland ∈ reasons then
    reasons.filter fun r => keep r fun dst =>
      dst = socketDir ∨ (psboxDir ++ ["bin"] <+: dst ∧ dst ≠ psboxDir ++ ["bin"])
    else reasons
  let rs := if .links ∈ rs ∨ .dbus ∈ rs then
    rs.filter fun r => keep r fun dst => psboxDir <+: dst ∧ dst ≠ psboxDir
    else rs
  let rs := if .network ∈ rs then
    rs.filter fun r => keep r fun dst => dst = ["etc", "resolv.conf"] ∨ dst = ["run", "systemd", "resolve"]
    else rs
  let rs := if .home ∈ rs then rs.filter fun r => keep r fun dst => new.home <+: dst else rs
  rs.eraseDups

/-- Compares two plans for the same sandbox. -/
def diff (old new : Plan) : Change :=
  let restart := retained new
    (settingReasons old new ++ mountReasons (dropped old new) ++ mountReasons (added old new))
  -- A restart that is needed leaves the rest alone.
  if restart ≠ [] then { restart := restart }
  else { detach := (dropped old new).filter liveMount, attach := (added old new).filter liveMount }

end Plan

end Psbox.Sandbox
