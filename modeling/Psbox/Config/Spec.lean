import Psbox.Config.Checker
import Psbox.Install.Build

/-!
# Configs

A sandbox config, complete with defaults (`Spec` of `spec.rs`), and the JSON that `psbox config` prints for it
(`Spec::to_json`). Paths are texts here, as they are printed.
-/

namespace Psbox.Config

open Psbox.Foundations
open Psbox.Sandbox (MountMode DeviceClass Cache Dbus DbusMode NetworkSetting Xwayland XwaylandMode XwaylandScale OpenIn
  Links)

/-! ## Section 1: Specs -/

/-- The sandbox's home directory. -/
inductive Home where
  /-- A host directory, bound read-write. -/
  | path (path : String) (cache : Cache)
  | temporary
  deriving DecidableEq

/-- A mount that the config lists. -/
structure MountSpec where
  /-- Host source; `none` for `empty`. -/
  source : Option String
  destination : String
  mode : MountMode
  /-- Skip silently when the source is missing. -/
  optional : Bool
  /-- Create the source directory when it is missing. -/
  create : Bool
  deriving DecidableEq

/-- Where a desktop entry goes: the applications or the autostart directory. -/
inductive Kind where
  | application
  | autostart
  deriving DecidableEq

/-- The kind as a config spells it. -/
def Kind.text : Kind → String
  | .application => "application"
  | .autostart => "autostart"

/-- A Desktop Entry key's value. -/
inductive KeyValue where
  /-- Remove the key from a copied entry. -/
  | remove
  | bool (b : Bool)
  | str (s : String)
  | list (items : List String)
  | localized (default : String) (locales : Dict String String)
  deriving DecidableEq

/-- An action of an application's desktop entry. -/
structure Action where
  /-- Arguments added after the app's `run`. -/
  arguments : List String
  keys : Dict String KeyValue
  deriving DecidableEq

/-- An application, and its desktop entry. -/
structure Application where
  run : List String
  environment : Dict String String
  /-- The desktop file id, also the app id registered with the portal. -/
  id : String
  /-- The host entry copied, when any. -/
  sourceId : Option String
  removeArguments : List String
  keys : Dict String KeyValue
  /-- Actions by name; `none` removes a copied action. -/
  actions : Dict String (Option Action)
  noDisplay : Option Bool
  /-- The implicit default app, which gets a desktop file only when it inherits a host entry. -/
  implicit : Bool
  deriving DecidableEq

/-- Whether `psbox install` writes a desktop file for it. -/
def Application.hasEntry (a : Application) : Bool :=
  !a.implicit || a.sourceId.isSome

/-- An entry that starts an application with the session. -/
structure Autostart where
  /-- The application it starts. -/
  app : String
  id : String
  sourceId : Option String
  removeArguments : List String
  keys : Dict String KeyValue
  deriving DecidableEq

/-- An entry of the section `app`. -/
inductive AppSpec where
  | application (a : Application)
  | autostart (a : Autostart)
  /-- A `Hidden=true` entry under `id`, hiding the host's. -/
  | suppress (kind : Kind) (id : String)
  deriving DecidableEq

namespace AppSpec

/-- The directory that its desktop file goes to. -/
def kind : AppSpec → Kind
  | application _ => .application
  | autostart _ => .autostart
  | suppress kind _ => kind

/-- The desktop file id. -/
def id : AppSpec → String
  | application a => a.id
  | autostart a => a.id
  | suppress _ id => id

/-- Whether it is one that can be started. -/
def isApplication : AppSpec → Bool
  | application _ => true
  | _ => false

/-- Whether there is a desktop file for it. -/
def hasFile : AppSpec → Bool
  | application a => a.hasEntry
  | _ => true

end AppSpec

/-- A config without its apps and tasks. -/
structure Body where
  /-- Seconds with no workload before the sandbox stops. -/
  idleTimeout : UInt64
  allow32bit : Bool
  home : Option Home
  /-- The device classes that are on. -/
  devices : List DeviceClass
  dbus : Option Dbus
  network : NetworkSetting
  display : Bool
  xwayland : Option Xwayland
  links : Links
  /-- Extra environment for every process. -/
  environment : Dict String String
  mount : Dict String MountSpec
  deriving DecidableEq

/-- A task of the sandbox. -/
structure TaskSpec where
  command : List String
  /-- The application whose portal identity the task uses. -/
  app : Option String
  /-- The task's config: the sandbox's with its overrides, without apps and tasks. -/
  spec : Body
  deriving DecidableEq

/-- A config. -/
structure Spec extends Body where
  app : Dict String AppSpec
  task : Dict String TaskSpec
  deriving DecidableEq

/-- What a config is checked in the light of. -/
structure Context where
  /-- The sandbox name; `none` for an unnamed sandbox. -/
  name : Option String
  /-- The default home of a named sandbox. -/
  storage : Option String
  /-- Whether the host has a desktop entry with this id that psbox did not write. -/
  hostEntry : String → Bool

/-! ## Section 2: Choices -/

/-- The keys of the device classes, and whether each is on when it is left out. -/
def deviceKeys : List (String × DeviceClass × Bool) :=
  [("gpu", .gpu, true), ("audio", .audio, true), ("camera", .camera, false), ("gamepad", .gamepad, false),
    ("security-key", .securityKey, false), ("alsa", .alsa, false)]

def caches : List (String × Cache) :=
  [("temporary", .temporary), ("persistent", .persistent)]

def dbusModes : List (String × DbusMode) :=
  [("portal", .portal), ("host", .host)]

def networks : List (String × NetworkSetting) :=
  [("automatic", .automatic), ("isolated", .isolated), ("host", .host)]

def xwaylandModes : List (String × XwaylandMode) :=
  [("builtin", .builtin), ("xwayland-satellite", .satellite)]

def xwaylandScales : List (String × XwaylandScale) :=
  [("native", .native), ("round-up", .roundUp), ("compositor", .compositor)]

def openIns : List (String × OpenIn) :=
  [("host", .host), ("sandbox", .sandbox)]

def mountModes : List (String × MountMode) :=
  [("read-write", .readWrite), ("read-only", .readOnly), ("overlay", .overlay), ("empty", .empty)]

def kinds : List (String × Kind) :=
  [("application", .application), ("autostart", .autostart)]

/-! ## Section 3: Printing -/

/-- An object with some fields (`json!`). -/
def object (fields : List (String × Value)) : Value :=
  .obj (collect fields)

/-- A list of strings. -/
def strings (ss : List String) : Value :=
  .arr (ss.map .str)

/-- What is there, or null. -/
def ofOption {α : Type} (f : α → Value) : Option α → Value
  | none => .null
  | some a => f a

/-- The last hexadecimal digit. -/
def hexDigit (n : Nat) : Char :=
  Nat.digitChar (n % 16)

/-- `{:04x}` of a `u16` -/
def hex4 (n : Nat) : List Char :=
  [hexDigit (n / 4096), hexDigit (n / 256), hexDigit (n / 16), hexDigit n]

/-- A USB device as `devices.usb` spells it. -/
def usbText (vendor product : Nat) : String :=
  String.ofList (hex4 vendor ++ ':' :: hex4 product)

/-- The USB devices among the devices. -/
def usbIds (devices : List DeviceClass) : List String :=
  devices.filterMap fun d =>
    match d with
    | .usb vendor product => some (usbText vendor product)
    | _ => none

def Cache.text : Cache → String
  | .temporary => "temporary"
  | .persistent => "persistent"

def DbusMode.text : DbusMode → String
  | .portal => "portal"
  | .host => "host"

def XwaylandMode.text : XwaylandMode → String
  | .builtin => "builtin"
  | .satellite => "xwayland-satellite"

def XwaylandScale.text : XwaylandScale → String
  | .native => "native"
  | .roundUp => "round-up"
  | .compositor => "compositor"

def OpenIn.text : OpenIn → String
  | .host => "host"
  | .sandbox => "sandbox"

def MountMode.text : MountMode → String
  | .readWrite => "read-write"
  | .readOnly => "read-only"
  | .overlay => "overlay"
  | .empty => "empty"

/-- The section `home`. -/
def Home.toJson : Home → Value
  | .temporary => object [("mode", .str "temporary")]
  | .path p cache =>
      object [("mode", .str "path"), ("path", .str p), ("cache", .str (Cache.text cache))]

/-- The section `devices`, with every class. -/
def devicesToJson (devices : List DeviceClass) : Value :=
  object (deviceKeys.map (fun k => (k.1, .bool (decide (k.2.1 ∈ devices)))) ++ [("usb", strings (usbIds devices))])

/-- The section `dbus`. -/
def dbusToJson (d : Dbus) : Value :=
  object [("mode", .str (DbusMode.text d.mode)), ("talk", strings d.talk)]

/-- The section `network`; the loopback alone is null. -/
def networkToJson : NetworkSetting → Value
  | .loopback => .null
  | .automatic => object [("mode", .str "automatic")]
  | .isolated => object [("mode", .str "isolated")]
  | .host => object [("mode", .str "host")]

/-- The section `xwayland`; the scale is printed where it is used. -/
def xwaylandToJson (x : Xwayland) : Value :=
  match x.mode with
  | .builtin => object [("mode", .str (XwaylandMode.text x.mode)), ("scale", .str (XwaylandScale.text x.scale))]
  | .satellite => object [("mode", .str (XwaylandMode.text x.mode))]

/-- The section `links`. -/
def linksToJson (l : Links) : Value :=
  object
    [("http", .str (OpenIn.text l.http)), ("https", .str (OpenIn.text l.https)), ("mailto", .str (OpenIn.text l.mailto))]

/-- An environment. -/
def environmentToJson (d : Dict String String) : Value :=
  .obj (d.entries.map fun e => (e.1, .str e.2))

/-- The value of a Desktop Entry key, its translations with the default among them. -/
def KeyValue.toJson : KeyValue → Value
  | .remove => .null
  | .bool b => .bool b
  | .str s => .str s
  | .list items => strings items
  | .localized default locales =>
      .obj (insertEntry "default" (.str default) (locales.entries.map fun e => (e.1, .str e.2)))

/-- The Desktop Entry keys. -/
def keysToJson (keys : Dict String KeyValue) : Map :=
  keys.entries.map fun e => (e.1, e.2.toJson)

/-- An action, its arguments among its keys. -/
def Action.toJson (a : Action) : Value :=
  .obj (insertEntry "arguments" (strings a.arguments) (keysToJson a.keys))

/-- The keys of an application. -/
def Application.fields (a : Application) : List (String × Value) :=
  [("kind", .str "application"), ("run", strings a.run), ("environment", environmentToJson a.environment),
    ("id", .str a.id), ("source-id", ofOption .str a.sourceId), ("remove-arguments", strings a.removeArguments),
    ("keys", .obj (keysToJson a.keys)),
    ("actions", .obj (a.actions.entries.map fun e => (e.1, ofOption Action.toJson e.2)))] ++
    a.noDisplay.toList.map fun b => ("no-display", .bool b)

/-- The keys of an autostart entry. -/
def Autostart.fields (a : Autostart) : List (String × Value) :=
  [("kind", .str "autostart"), ("app", .str a.app), ("id", .str a.id), ("source-id", ofOption .str a.sourceId),
    ("remove-arguments", strings a.removeArguments), ("keys", .obj (keysToJson a.keys))]

/-- The keys of an entry of `app`. -/
def AppSpec.fields : AppSpec → List (String × Value)
  | .application a => a.fields
  | .autostart a => a.fields
  | .suppress kind id => [("kind", .str kind.text), ("id", .str id), ("suppress", .bool true)]

def AppSpec.toJson (a : AppSpec) : Value :=
  object a.fields

/-- The keys of a mount. -/
def MountSpec.fields (m : MountSpec) : List (String × Value) :=
  [("destination", .str m.destination), ("mode", .str (MountMode.text m.mode)), ("optional", .bool m.optional),
    ("create", .bool m.create)] ++ m.source.toList.map fun src => ("source", .str src)

def MountSpec.toJson (m : MountSpec) : Value :=
  object m.fields

/-- The keys of a task. Its own config is not printed with it. -/
def TaskSpec.fields (t : TaskSpec) : List (String × Value) :=
  ("run", strings t.command) :: t.app.toList.map fun app => ("app", .str app)

def TaskSpec.toJson (t : TaskSpec) : Value :=
  object t.fields

/-- The sections of the config, every default filled in. -/
def Spec.fields (s : Spec) : List (String × Value) :=
  [("sandbox", object [("idle-timeout", .num (some s.idleTimeout)), ("32-bit", .bool s.allow32bit)]),
    ("home", ofOption Home.toJson s.home),
    ("devices", devicesToJson s.devices),
    ("dbus", ofOption dbusToJson s.dbus),
    ("network", networkToJson s.network),
    ("display", if s.display then .obj [] else .null),
    ("xwayland", ofOption xwaylandToJson s.xwayland),
    ("links", linksToJson s.links),
    ("environment", environmentToJson s.environment),
    ("mount", .obj (s.mount.entries.map fun e => (e.1, e.2.toJson))),
    ("app", .obj (s.app.entries.map fun e => (e.1, e.2.toJson))),
    ("task", .obj (s.task.entries.map fun e => (e.1, e.2.toJson)))]

/-- The config as JSON. -/
def Spec.toJson (s : Spec) : Value :=
  object s.fields

/-- The config of a task has no apps and no tasks of its own. -/
def Body.toSpec (b : Body) : Spec :=
  { b with app := ∅, task := ∅ }

/-- The configs of the tasks as JSON. -/
def Spec.tasksToJson (s : Spec) : Map :=
  s.task.entries.map fun e => (e.1, e.2.spec.toSpec.toJson)

end Psbox.Config
