import Psbox.Config.Spec

/-!
# Parsing a Config

What an evaluated config means (`Spec::from_json` of `spec.rs`): unknown keys, wrong types and keys that the
chosen mode does not use are problems, and every present section is completed with its defaults.

`parse_config` is taken apart into its sections. A task's config goes through the same checks, but for the
sections of apps and tasks; of its problems those are reported that the sandbox's own config does not have.
-/

namespace Psbox.Config

open Psbox.Foundations
open Psbox.Portal (debugString)
open Psbox.Sandbox (MountMode DeviceClass Cache Dbus DbusMode NetworkSetting Xwayland XwaylandMode XwaylandScale OpenIn
  Links validWord)

namespace Checker

variable {α : Type}

/-- A condition that has to hold. -/
def require (ok : Bool) (path message : String) : Checker Unit :=
  if ok then pure () else err path message

/-- A section, which is an object when it is there. -/
def section_ (path : String) (v : Option Value) (default : α) (f : Map → Checker α) : Checker α :=
  match v with
  | none => pure default
  | some v => do
      match ← object path v with
      | none => pure default
      | some m => f m

/-- A section that is off when it is left out or null. -/
def nullable (path : String) (v : Option Value) (f : Map → Checker (Option α)) : Checker (Option α) :=
  match v with
  | some .null => pure none
  | v => section_ path v none f

/-- The items of a list, each once, after those that are there. -/
def addDistinct [DecidableEq α] (path : String) (check : String → Except String α) (start : List α)
    (items : List String) : Checker (List α) :=
  -- The items are folded over those that are there, so that an item that is there already comes in no
  -- second time.
  items.zipIdx.foldlM
    (fun out item =>
      match check item.1 with
      | .ok a => pure (if a ∈ out then out else out ++ [a])
      | .error e => do
          err (path ++ "[" ++ toString item.2 ++ "]") e
          pure out)
    start

end Checker

open Checker

/-! ## Section 1: Sections -/

/-- The sections of a config. -/
def sections : List String :=
  ["sandbox", "home", "devices", "dbus", "network", "display", "xwayland", "links", "environment", "mount", "app",
    "task"]

/-- The idle timeout, and whether 32-bit programs may run. -/
def parseSandbox (v : Option Value) : Checker (UInt64 × Bool) :=
  section_ "sandbox" v (60, false) fun m => do
    known "sandbox" m ["idle-timeout", "32-bit"]
    let allow32bit ← bool "sandbox" m "32-bit" false
    match m.lookup "idle-timeout" with
    | none => pure (60, allow32bit)
    -- A number that is no `u64` is neither this nor the default.
    | some (.num (some n)) => pure (n, allow32bit)
    | some _ => do
        err "sandbox.idle-timeout" "expected a whole number of seconds"
        pure (60, allow32bit)

/-- The path of the home: as it is written, or the sandbox's storage, which an unnamed one has not. -/
def homePath (ctx : Context) (m : Map) : Checker (Option String) :=
  -- A path that is written and not accepted does not fall back to the storage.
  if (m.lookup "path").isSome then Checker.path "home" m "path"
  else
    match ctx.storage with
    | some storage => pure (some storage)
    | none => do
        err "home.path" "required with mode \"path\" in an unnamed sandbox"
        pure none

/-- The home; with null there is none. -/
def parseHome (ctx : Context) (v : Option Value) : Checker (Option Home) :=
  nullable "home" v fun m => do
    known "home" m ["mode", "path", "cache"]
    let mode ← string "home" m "mode"
    -- Without a mode, a sandbox without storage has its home for as long as it runs.
    match mode.getD (if ctx.storage.isSome then "path" else "temporary") with
    | "temporary" => do
        unused "home" m ["path", "cache"] "with mode \"temporary\""
        pure (some .temporary)
    | "path" => do
        let path ← homePath ctx m
        let cache ← choice "home" m "cache" caches .temporary
        pure (path.map fun p => .path p cache)
    | other => do
        err "home.mode" ("expected \"path\" or \"temporary\", got " ++ debugString other)
        pure none

/-- A device class, when it is on. -/
def deviceClass (m : Map) (k : String × DeviceClass × Bool) : Checker (Option DeviceClass) := do
  let on ← bool "devices" m k.1 k.2.2
  pure (if on then some k.2.1 else none)

/-- The device classes that are on, and the USB devices after them. -/
def parseDevices (v : Option Value) : Checker (List DeviceClass) :=
  section_ "devices" v [.gpu, .audio] fun m => do
    -- The keys in the order of the table, not of the config.
    known "devices" m (deviceKeys.map Prod.fst ++ ["usb"])
    let classes ← Report.each (deviceClass m) deviceKeys
    let ids ← Checker.strings "devices" m "usb"
    addDistinct "devices.usb" usbDevice classes ids

/-- A name that `dbus.talk` may list. -/
def talkName (name : String) : Except String String :=
  (validateTalkName name).map fun _ => name

/-- The names to reach, which only the portal's mode lists. -/
def parseTalk (m : Map) : DbusMode → Checker (List String)
  | .host => do
      unused "dbus" m ["talk"] "with mode \"host\", which reaches every name"
      pure []
  | .portal => do
      let names ← Checker.strings "dbus" m "talk"
      addDistinct "dbus.talk" talkName [] names

/-- The session bus; with null there is none. -/
def parseDbus (v : Option Value) : Checker (Option Dbus) :=
  nullable "dbus" v fun m => do
    known "dbus" m ["mode", "talk"]
    let mode ← choice "dbus" m "mode" dbusModes .portal
    let talk ← parseTalk m mode
    pure (some { mode := mode, talk := talk })

/-- The network; with null there is only the loopback. -/
def parseNetwork : Option Value → Checker NetworkSetting
  | some .null => pure .loopback
  | v =>
      section_ "network" v .automatic fun m => do
        known "network" m ["mode"]
        choice "network" m "mode" networks .automatic

/-- Whether there is a display, which has no keys of its own. -/
def parseDisplay : Option Value → Checker Bool
  | some .null => pure false
  | v =>
      section_ "display" v true fun m => do
        known "display" m []
        pure true

/-- How Xwayland scales, which only psbox's own proxy does. -/
def parseScale (m : Map) : XwaylandMode → Checker XwaylandScale
  | .builtin => choice "xwayland" m "scale" xwaylandScales .native
  | .satellite => do
      unused "xwayland" m ["scale"] "with mode \"xwayland-satellite\" (only psbox's title bar proxy scales)"
      pure .native

/-- A display set to null takes Xwayland with it. -/
def parseXwayland (display : Bool) (v : Option Value) : Checker (Option Xwayland) :=
  -- Whatever is written for Xwayland is not looked at without a display.
  nullable "xwayland" (if display then v else none) fun m => do
    known "xwayland" m ["mode", "scale"]
    let mode ← choice "xwayland" m "mode" xwaylandModes .builtin
    let scale ← parseScale m mode
    pure (some { mode := mode, scale := scale })

/-- Where links are opened. -/
def parseLinks (v : Option Value) : Checker Links :=
  section_ "links" v {} fun m => do
    known "links" m ["http", "https", "mailto"]
    let http ← choice "links" m "http" openIns .host
    let https ← choice "links" m "https" openIns .host
    let mailto ← choice "links" m "mailto" openIns .host
    pure { http := http, https := https, mailto := mailto }

/-! ## Section 2: Mounts -/

/-- The destination of a mount, if it is written: else it is the source. -/
def mountDestination (path : String) (m : Map) : Checker (Option String) :=
  if (m.lookup "destination").isSome then Checker.path path m "destination" else pure none

/-- The source of a mount, which every mode but `empty` requires. -/
def mountSource (path : String) (m : Map) (create : Bool) : MountMode → Checker (Option String)
  | .empty => do
      unused path m ["source"] "with mode \"empty\""
      require (!create) (at_ path "create") "an empty mount has no source to create"
      require (m.lookup "destination").isSome (at_ path "destination") "required with mode \"empty\""
      pure none
  | _ => do
      let source ← Checker.path path m "source"
      require (m.lookup "source").isSome (at_ path "source") "required"
      pure source

/-- A mount, if it has a destination. -/
def parseMountSpec (path : String) (m : Map) : Checker (Option MountSpec) := do
  known path m ["source", "destination", "mode", "optional", "create"]
  let mode ← choice path m "mode" mountModes .readWrite
  let optional ← bool path m "optional" false
  let create ← bool path m "create" false
  -- A destination that is written but not accepted falls back to the source; the config is refused then.
  let destination ← mountDestination path m
  let source ← mountSource path m create mode
  require (!(create && optional)) (at_ path "create") "an optional mount is never created"
  pure ((destination.or source).map fun destination => ⟨source, destination, mode, optional, create⟩)

/-- An entry that is an object; null removes one of a layer below. -/
def named {α : Type} (path name : String) (v : Value) (f : Map → Checker (Option α)) :
    Checker (Option (String × α)) :=
  -- A null of this layer takes the place of what a layer below says.
  match v with
  | .null => pure none
  | v => do
      match ← Checker.object path v with
      | none => pure none
      | some m => do
          let a ← f m
          pure (a.map fun a => (name, a))

/-- A mount under its name. -/
def parseMount (e : String × Value) : Checker (Option (String × MountSpec)) := do
  -- The name is checked, but what is under it is parsed either way.
  let path := at_ "mount" e.1
  let _ ← checked path (validateName "mount" e.1)
  named path e.1 e.2 (parseMountSpec path)

/-- Two mounts at one destination: the same mount twice merges, anything else is a conflict. There are the
mounts seen, and the names of those that are dropped. -/
def conflict (s : List (String × MountSpec) × List String) (e : String × MountSpec) :
    Checker (List (String × MountSpec) × List String) :=
  match s.1.find? fun f => f.2.destination = e.2.destination with
  | some f =>
      -- The first of the two stays, since names come in their order.
      if f.2 = e.2 then pure (s.1, s.2 ++ [e.1])
      else do
        err (at_ "mount" e.1) (e.2.destination ++ " is also the destination of mount " ++ f.1)
        pure s
  | none => pure (s.1 ++ [e], s.2)

/-- The mounts, without those that are another's again. -/
def parseMounts (v : Option Value) : Checker (Dict String MountSpec) :=
  section_ "mount" v ∅ fun entries => do
    let mounts ← Report.each parseMount entries
    let out := Dict.ofList mounts
    let seen ← out.entries.foldlM conflict ([], [])
    -- What is merged is left out under its own name.
    pure (out.filter fun e => e.1 ∉ seen.2)

/-! ## Section 3: Apps -/

/-- A text in one of the languages of a key. -/
def translation (path : String) (e : String × Value) : Checker (Option (String × String)) :=
  match e.2 with
  | .str text =>
      if e.1 = "default" ∨ Install.validLocale e.1.toList then pure (some (e.1, text))
      else do
        err (at_ path e.1) "not a locale (lang_COUNTRY.ENCODING@MODIFIER)"
        pure none
  | other => do
      err (at_ path e.1) ("expected a string, got " ++ typeName other)
      pure none

/-- The value of a Desktop Entry key; an object has its translations. -/
def parseKeyValue (path : String) : Value → Checker (Option KeyValue)
  | .null => pure (some .remove)
  | .bool b => pure (some (.bool b))
  | .str s => pure (some (.str s))
  | .arr items => do
      let list ← Report.each (item path) items.zipIdx
      pure (some (.list list))
  | .obj o => do
      let texts ← Report.each (translation path) o
      let texts := Dict.ofList texts
      -- `default` is the text without a language, and no language itself.
      match texts.lookup "default" with
      | some default => pure (some (.localized default (texts.filter fun e => e.1 ≠ "default")))
      | none => do
          err (at_ path "default") "required"
          pure none
  | .num _ => do
      err path "expected a string, boolean, list, or translations"
      pure none

/-- A Desktop Entry key that a config may set. -/
def parseKey (path : String) (e : String × Value) : Checker (Option (String × KeyValue)) :=
  let path := at_ path e.1
  if e.1 = "" ∨ !e.1.toList.all Install.isWordChar then do
    err path "desktop keys are letters, digits, and '-' (translations go in an object)"
    pure none
  else if Install.reservedKeys.contains e.1.toList then do
    err path "psbox sets this key itself"
    pure none
  else do
    let value ← parseKeyValue path e.2
    pure (value.map fun value => (e.1, value))

/-- The Desktop Entry keys of an entry or an action. -/
def parseKeys (path : String) (v : Option Value) : Checker (Dict String KeyValue) :=
  section_ path v ∅ fun m => do
    let keys ← Report.each (parseKey path) m
    pure (Dict.ofList keys)

/-- An action: its arguments, and all other keys as Desktop Entry keys. -/
def parseAction (path : String) (m : Map) : Checker Action := do
  let arguments ← Checker.strings path m "arguments"
  -- Everything but the arguments is taken for a Desktop Entry key.
  let keys ← parseKeys path (some (.obj (m.filter fun e => e.1 ≠ "arguments")))
  pure { arguments := arguments, keys := keys }

/-- An action under its name; null removes a copied one. -/
def actionEntry (path : String) (e : String × Value) : Checker (Option (String × Option Action)) :=
  let path := at_ path e.1
  -- Such a name could not stand in a group of the entry.
  if e.1 = "" ∨ !e.1.toList.all Install.isWordChar then do
    err path "action names are letters, digits, and '-'"
    pure none
  else
    match e.2 with
    | .null => pure (some (e.1, none))
    | v =>
        named path e.1 v fun m => do
          let action ← parseAction path m
          pure (some (some action))

/-- The actions of an application. -/
def parseActions (path : String) (v : Option Value) : Checker (Dict String (Option Action)) :=
  section_ path v ∅ fun m => do
    let actions ← Report.each (actionEntry path) m
    pure (Dict.ofList actions)

/-- The host entry to copy: null says that there is none. -/
def parseSourceId (path : String) (m : Map) : Checker (Option String) :=
  match m.lookup "source-id" with
  | none => pure none
  | some .null => pure none
  | some _ => string path m "source-id"

/-- The id of the host entry is a desktop file id. -/
def checkSourceId (path : String) : Option String → Checker Unit
  | none => pure ()
  | some s => do
      let _ ← checked (at_ path "source-id") (validateAppId s)
      pure ()

/-- The command of an application. The default app runs the program of its name. -/
def parseRun (sandbox name path : String) (m : Map) : Checker (List String) := do
  let run ← Checker.strings path m "run"
  if (m.lookup "run").isNone then
    -- Only an app that says nothing of `run` gets the program of its name.
    if name = sandbox then pure [sandbox]
    else do
      err (at_ path "run") "required"
      pure run
  else do
    require (!run.isEmpty) (at_ path "run") "is empty"
    pure run

/-- The host entry of its name, which the default app inherits unless the config says otherwise. -/
def inherited (ctx : Context) (sandbox : String) : Option String :=
  if ctx.hostEntry sandbox then some sandbox else none

/-- Whether the entry is hidden from menus, if that is written. -/
def parseNoDisplay (path : String) (m : Map) : Checker (Option Bool) :=
  match m.lookup "no-display" with
  | none => pure none
  | some _ => do
      let b ← bool path m "no-display" false
      pure (some b)

/-- What the two kinds of entries have in common. -/
structure EntryParts where
  id : String
  sourceId : Option String
  removeArguments : List String
  keys : Dict String KeyValue

/-- An application. The default app inherits the host's entry of its name unless the config says otherwise. -/
def parseApplication (ctx : Context) (sandbox name path : String) (m : Map) (parts : EntryParts) :
    Checker Application := do
  known path m
    ["kind", "id", "suppress", "run", "environment", "source-id", "remove-arguments", "keys", "actions", "no-display"]
  let run ← parseRun sandbox name path m
  let environment ← environment (at_ path "environment") (m.lookup "environment")
  let actions ← parseActions (at_ path "actions") (m.lookup "actions")
  let noDisplay ← parseNoDisplay path m
  pure
    { run := run, environment := environment, id := parts.id,
      -- A source id that is null is written: nothing is inherited then.
      sourceId := if name = sandbox ∧ (m.lookup "source-id").isNone then inherited ctx sandbox else parts.sourceId,
      removeArguments := parts.removeArguments, keys := parts.keys, actions := actions, noDisplay := noDisplay,
      implicit := false }

/-- An autostart entry, which starts the default app unless it names another. -/
def parseAutostart (sandbox path : String) (m : Map) (parts : EntryParts) : Checker Autostart := do
  known path m ["kind", "id", "suppress", "app", "source-id", "remove-arguments", "keys"]
  let app ← string path m "app"
  pure
    -- Without an app it is the one of the sandbox's name, which `checkStarted` looks for among the apps.
    { app := app.getD sandbox, id := parts.id, sourceId := parts.sourceId, removeArguments := parts.removeArguments,
      keys := parts.keys }

/-- What the two kinds of entries have in common. -/
def parseEntryParts (path id : String) (m : Map) : Checker EntryParts := do
  let sourceId ← parseSourceId path m
  checkSourceId path sourceId
  let removeArguments ← Checker.strings path m "remove-arguments"
  let keys ← parseKeys (at_ path "keys") (m.lookup "keys")
  pure { id := id, sourceId := sourceId, removeArguments := removeArguments, keys := keys }

/-- An entry of its kind. -/
def parseEntry (ctx : Context) (sandbox name path : String) (m : Map) : Kind → EntryParts → Checker AppSpec
  | .application, parts => do
      let a ← parseApplication ctx sandbox name path m parts
      pure (.application a)
  | .autostart, parts => do
      let a ← parseAutostart sandbox path m parts
      pure (.autostart a)

/-- An app, or an entry that hides the host's. -/
def parseAppSpec (ctx : Context) (sandbox name path : String) (m : Map) : Checker (Option AppSpec) := do
  let kind ← choice path m "kind" kinds .application
  let given ← string path m "id"
  let id := given.getD name
  -- An id that is left out is the app's name, and is checked as well.
  let _ ← checked (at_ path "id") (validateAppId id)
  let suppress ← bool path m "suppress" false
  -- Nothing else is read of an entry that only hides the host's.
  if suppress then do
    known path m ["kind", "id", "suppress"]
    pure (some (.suppress kind id))
  else do
    let parts ← parseEntryParts path id m
    let spec ← parseEntry ctx sandbox name path m kind parts
    pure (some spec)

/-- An app under its name. -/
def parseApp (ctx : Context) (sandbox : String) (e : String × Value) : Checker (Option (String × AppSpec)) := do
  let path := at_ "app" e.1
  match ← checked path (validateName "app" e.1) with
  -- An app whose name is refused is not looked at, unlike a mount.
  | none => pure none
  | some _ => named path e.1 e.2 (parseAppSpec ctx sandbox e.1 path)

/-- The default app, when the config neither defines nor removes it. -/
def implicitApp (ctx : Context) (sandbox : String) : AppSpec :=
  .application
    { run := [sandbox], environment := ∅, id := sandbox, sourceId := inherited ctx sandbox, removeArguments := [],
      keys := ∅, actions := ∅, noDisplay := none, implicit := true }

/-- Autostart entries start an application. -/
def checkStarted (sandbox : String) (apps : Dict String AppSpec) (name : String) : AppSpec → Checker Unit
  | .autostart s =>
      match apps.lookup s.app with
      | some (.application _) => pure ()
      | some _ => err (at_ (at_ "app" name) "app") (s.app ++ " isn't an application")
      | none =>
          -- A message of its own for the app that nobody has written.
          if s.app = sandbox then
            err (at_ (at_ "app" name) "app") "the default app was removed; name the application to start"
          else err (at_ (at_ "app" name) "app") ("no application named " ++ s.app)
  | _ => pure ()

/-- Ids are unique per kind; there are those of the entries before, with their names. -/
def checkId (ids : List ((Kind × String) × String)) (name : String) (a : AppSpec) :
    Checker (List ((Kind × String) × String)) :=
  -- Nothing is installed for an entry without a file, so that its id stays free.
  if !a.hasFile then pure ids
  else
    match ids.lookup (a.kind, a.id) with
    | some first => do
        err (at_ "app" name) ("app " ++ first ++ " also has the " ++ a.kind.text ++ " id " ++ a.id)
        pure ids
    | none => pure (ids ++ [((a.kind, a.id), name)])

/-- What one app needs of the others. -/
def checkApp (sandbox : String) (apps : Dict String AppSpec) (ids : List ((Kind × String) × String))
    (e : String × AppSpec) : Checker (List ((Kind × String) × String)) := do
  checkStarted sandbox apps e.1 e.2
  checkId ids e.1 e.2

/-- The apps, with the default app where the config says nothing of it. -/
def parseApps (ctx : Context) (sandbox : String) (v : Option Value) : Checker (Dict String AppSpec) := do
  let entries ← section_ "app" v [] pure
  let parsed ← Report.each (parseApp ctx sandbox) entries
  let out := Dict.ofList parsed
  -- `null` under the sandbox's name is an entry too, and removes the default app.
  let out := if (entries.lookup sandbox).isSome then out else out.insert sandbox (implicitApp ctx sandbox)
  let _ ← out.entries.foldlM (checkApp sandbox out) []
  pure out

/-! ## Section 4: Tasks and Configs -/

/-- A config without its apps and tasks, and its sections. -/
def parseBody (ctx : Context) (v : Value) : Checker (Map × Body) := do
  let given ← Checker.object "config" v
  let top := given.getD []
  -- A key that is no section is reported once, whatever is under it.
  known "" top sections
  let sandbox ← parseSandbox (top.lookup "sandbox")
  let home ← parseHome ctx (top.lookup "home")
  let devices ← parseDevices (top.lookup "devices")
  let dbus ← parseDbus (top.lookup "dbus")
  let network ← parseNetwork (top.lookup "network")
  let display ← parseDisplay (top.lookup "display")
  let xwayland ← parseXwayland display (top.lookup "xwayland")
  let links ← parseLinks (top.lookup "links")
  let environment ← environment "environment" (top.lookup "environment")
  let mount ← parseMounts (top.lookup "mount")
  pure
    (top,
      { idleTimeout := sandbox.1, allow32bit := sandbox.2, home := home, devices := devices, dbus := dbus,
        network := network, display := display, xwayland := xwayland, links := links, environment := environment,
        mount := mount })

/-- The command of a task: what it runs, or a script for `bash`. -/
def parseCommand (path : String) (m : Map) : Checker (List String) :=
  match m.lookup "run", m.lookup "script" with
  -- Both, and neither, are refused.
  | some _, none => do
      let run ← Checker.strings path m "run"
      require (!run.isEmpty) (at_ path "run") "is empty"
      pure run
  | none, some _ => do
      let script ← string path m "script"
      pure (script.elim [] fun script => ["bash", "-c", script])
  -- The two together leave open which of them is run.
  | _, _ => do
      err path "use exactly one of run and script"
      pure []

/-- The app whose identity a task uses is an application of the config. -/
def checkTaskApp (path : String) (apps : Dict String AppSpec) : Option String → Checker Unit
  | none => pure ()
  | some a => require ((apps.lookup a).any AppSpec.isApplication) (at_ path "app") ("no application named " ++ a)

/-- The overrides of a task leave apps and tasks alone. -/
def checkOverrides (path : String) (v : Option Value) : Checker Unit :=
  section_ (at_ path "overrides") v () fun o =>
    forM ["app", "task"] fun key =>
      require (o.lookup key).isNone (at_ (at_ path "overrides") key) "a task can't override this"

/-- A task's own config: problems that the sandbox's config has are reported once. -/
def parseTaskConfig (ctx : Context) (path : String) (config : Value) : Checker Body := do
  let parsed ← (parseBody ctx config).adopt fun p => (path ++ " (with overrides) " ++ p.1, p.2)
  -- A task keeps nothing running, so it has no timeout of its own.
  pure { parsed.2 with idleTimeout := 0 }

/-- A task, with its own config as it was evaluated. -/
def parseTaskSpec (ctx : Context) (tasks : Map) (apps : Dict String AppSpec) (name path : String) (m : Map) :
    Checker (Option TaskSpec) := do
  known path m ["run", "script", "app", "overrides"]
  let command ← parseCommand path m
  let app ← string path m "app"
  checkTaskApp path apps app
  checkOverrides path (m.lookup "overrides")
  -- The evaluation has a config for each task that is written.
  match tasks.lookup name with
  | none => do
      err path "missing from the evaluation"
      pure none
  | some config => do
      let spec ← parseTaskConfig ctx path config
      require (!(app.isSome && spec.dbus.isNone)) (at_ path "app")
        "needs a session bus to use an app's portal identity"
      pure (some { command := command, app := app, spec := spec })

/-- A task under its name. -/
def parseTask (ctx : Context) (tasks : Map) (apps : Dict String AppSpec) (e : String × Value) :
    Checker (Option (String × TaskSpec)) :=
  let path := at_ "task" e.1
  if !validWord e.1 then do
    err path "invalid task name: use letters, digits, '_', '-'"
    pure none
  else named path e.1 e.2 (parseTaskSpec ctx tasks apps e.1 path)

/-- The tasks of a config. -/
def parseTasks (ctx : Context) (tasks : Map) (apps : Dict String AppSpec) (v : Option Value) :
    Checker (Dict String TaskSpec) :=
  section_ "task" v ∅ fun entries => do
    let out ← Report.each (parseTask ctx tasks apps) entries
    pure (Dict.ofList out)

/-- `parse_config`. An unnamed sandbox has no apps and tasks. -/
def parseConfig (ctx : Context) (tasks : Map) (v : Value) : Checker Spec := do
  let parsed ← parseBody ctx v
  match ctx.name with
  | some name => do
      -- The apps first: tasks and autostart entries name them.
      let app ← parseApps ctx name (parsed.1.lookup "app")
      let task ← parseTasks ctx tasks app (parsed.1.lookup "task")
      pure { parsed.2 with app := app, task := task }
  -- What an unnamed sandbox says of apps and tasks is not looked at.
  | none => pure parsed.2.toSpec

/-- `Spec::from_json`: `config` is the composed config and `tasks` each task's. -/
def fromJson (config : Value) (tasks : Map) (ctx : Context) : Except (List Problem) Spec :=
  (parseConfig ctx tasks config).finish

end Psbox.Config
