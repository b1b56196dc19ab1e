import Psbox.DBus.Message

/-!
# The Portal Policy

What the D-Bus gateway forwards to the host, and how forwarded messages are
changed (`portal.rs`): the tables of interfaces and methods, and `check`.

A connection without a portal identity reaches only the portals that need none.
-/

namespace Psbox.Portal

open Psbox.DBus

/-! ## Section 1: Names and Tables -/

def portalName : String := "org.freedesktop.portal.Desktop"
def portalPath : String := "/org/freedesktop/portal/desktop"
def notificationsName : String := "org.freedesktop.Notifications"
def notificationsPath : String := "/org/freedesktop/Notifications"
def registryIface : String := "org.freedesktop.host.portal.Registry"
def openUriIface : String := "org.freedesktop.portal.OpenURI"

/-- Names the gateway owns on the sandbox bus. -/
def gatewayNames : List String := [portalName, notificationsName]

def requestPrefix : String := "/org/freedesktop/portal/desktop/request/"
def sessionPrefix : String := "/org/freedesktop/portal/desktop/session/"

/-- The portal interfaces the gateway forwards and the methods of each it passes
on. -/
def methods : List (String × List String) :=
  [("org.freedesktop.portal.Account", ["GetUserInformation"]),
   ("org.freedesktop.portal.Email", ["ComposeEmail"]),
   ("org.freedesktop.portal.FileChooser", ["OpenFile", "SaveFile", "SaveFiles"]),
   ("org.freedesktop.portal.GlobalShortcuts",
     ["CreateSession", "BindShortcuts", "ListShortcuts", "ConfigureShortcuts"]),
   ("org.freedesktop.portal.Inhibit", ["Inhibit", "CreateMonitor", "QueryEndResponse"]),
   ("org.freedesktop.portal.MemoryMonitor", []),
   ("org.freedesktop.portal.NetworkMonitor",
     ["GetAvailable", "GetMetered", "GetConnectivity", "GetStatus", "CanReach"]),
   ("org.freedesktop.portal.Notification", ["AddNotification", "RemoveNotification"]),
   ("org.freedesktop.portal.PowerProfileMonitor", []),
   ("org.freedesktop.portal.Print", ["PreparePrint", "Print"]),
   ("org.freedesktop.portal.ProxyResolver", ["Lookup"]),
   ("org.freedesktop.portal.Secret", ["RetrieveSecret"]),
   ("org.freedesktop.portal.Settings", ["ReadAll", "Read", "ReadOne"]),
   ("org.freedesktop.portal.Trash", ["TrashFile"]),
   ("org.freedesktop.portal.OpenURI", ["OpenURI", "OpenFile", "OpenDirectory", "SchemeSupported"]),
   ("org.freedesktop.portal.Screenshot", ["Screenshot", "PickColor"]),
   ("org.freedesktop.portal.ScreenCast",
     ["CreateSession", "SelectSources", "Start", "OpenPipeWireRemote"]),
   ("org.freedesktop.portal.Camera", ["AccessCamera", "OpenPipeWireRemote"]),
   ("org.freedesktop.portal.Realtime",
     ["MakeThreadRealtimeWithPID", "MakeThreadHighPriorityWithPID"])]

/-- The portals a connection without a portal identity reaches, and their
forwarded methods. -/
def unidentified : List (String × List String) :=
  [("org.freedesktop.portal.Settings", ["ReadAll", "Read", "ReadOne"]),
   ("org.freedesktop.portal.OpenURI", ["OpenURI", "SchemeSupported"]),
   ("org.freedesktop.portal.Realtime",
     ["MakeThreadRealtimeWithPID", "MakeThreadHighPriorityWithPID"]),
   ("org.freedesktop.portal.Inhibit", ["Inhibit", "CreateMonitor", "QueryEndResponse"]),
   ("org.freedesktop.portal.NetworkMonitor",
     ["GetAvailable", "GetMetered", "GetConnectivity", "GetStatus", "CanReach"]),
   ("org.freedesktop.portal.MemoryMonitor", []),
   ("org.freedesktop.portal.PowerProfileMonitor", [])]

/-- The methods of `org.freedesktop.Notifications` that are forwarded. -/
def notificationsMethods : List String :=
  ["Notify", "CloseNotification", "GetCapabilities", "GetServerInformation"]

structure Policy where
  /-- Allow the Camera portal (the `camera` device class). -/
  camera : Bool := false
  /-- Allow the Realtime portal (the `audio` device class). -/
  realtime : Bool := false
  /-- URI schemes `OpenURI.OpenURI` may open on the host. -/
  uriSchemes : List String := ["http", "https", "mailto"]

/-- The kind of file-chooser request, for mapping its results. -/
inductive FileRequest where
  | openFile
  | saveFile
  /-- A screenshot: the response's single `uri` is the new image. -/
  | screenshot
  deriving Repr, DecidableEq

inductive Verdict where
  /-- Forward, with these replacement arguments when present. -/
  | forward (args : Option (List Value)) (file : Option FileRequest)
  | deny (why : String)
  /-- Answer as if the interface did not exist. -/
  | missing (what : String)
  /-- Answer an introspection with the portal object as a connection without an
  identity sees it. -/
  | introspect

/-! ## Section 2: Text -/

/-- The source's `str::starts_with`. -/
def startsWith (s pre : String) : Bool :=
  pre.toList.isPrefixOf s.toList

/-- The text before the first colon, in ASCII lower case; empty when there is no
colon. -/
def uriScheme (uri : String) : String :=
  if uri.toList.contains ':' then
    String.ofList ((uri.toList.takeWhile (· ≠ ':')).map Char.toLower)
  else ""

/-- One character as `{:?}` writes it inside a string. Beyond ASCII the source also
escapes characters that cannot be printed. -/
def escapeDebug (c : Char) : List Char :=
  if c = '"' then ['\\', '"']
  else if c = '\\' then ['\\', '\\']
  else if c = '\n' then ['\\', 'n']
  else if c = '\r' then ['\\', 'r']
  else if c = '\t' then ['\\', 't']
  else if c.toNat = 0 then ['\\', '0']
  else if c.toNat < 0x20 ∨ c.toNat = 0x7f then
    ['\\', 'u', '{'] ++ Nat.toDigits 16 c.toNat ++ ['}']
  else [c]

def debugString (s : String) : String :=
  String.ofList (['"'] ++ s.toList.flatMap escapeDebug ++ ['"'])

/-! ## Section 3: Arguments -/

/-- `Some(args)` with the argument at `i` changed by `f`, when there is one. -/
def changeArg (i : Nat) (f : Value → Value) (args : List Value) : List Value :=
  args.modify i f

/-- The bytes of an array of bytes. -/
def byteItems : List Value → Option (List UInt8)
  | [] => some []
  | .byte b :: vs => (byteItems vs).map (b :: ·)
  | _ :: _ => none

/-- A file name without the NUL that GLib sends after it. -/
def stripNul (bytes : List UInt8) : List UInt8 :=
  if bytes.getLast? = some 0 then bytes.dropLast else bytes

/-- A plain file name: a byte string, perhaps NUL-terminated, with no `/` and
not `.` or `..`. -/
def plainFileName (name : Value) : Bool :=
  match name with
  | .array _ items =>
      match byteItems items with
      | some bytes =>
          let name := stripNul bytes
          !name.isEmpty && name != ['.'.toUInt8] && name != ['.'.toUInt8, '.'.toUInt8] &&
            !name.contains '/'.toUInt8 && !name.contains 0
      | none => false
  | _ => false

/-- Whether `files` (the `SaveFiles` option) is a list of plain file names. -/
def plainFileNames (files : Value) : Bool :=
  match files with
  | .array sig names => sig == ['a', 'y'] && names.all plainFileName
  | _ => false

/-! ## Section 4: The Check -/

/-- Forwarding a call as it is. -/
def forwardAsIs : Verdict := .forward none none

def introspection (iface : String) : Bool :=
  iface == "org.freedesktop.DBus.Introspectable" || iface == "org.freedesktop.DBus.Peer"

/-- The forwarded methods of `iface` under `policy`, or `none` when the interface
is not forwarded at all. -/
def portalMethods (policy : Policy) (identified : Bool) (iface : String) : Option (List String) :=
  let gated :=
    if iface = "org.freedesktop.portal.Camera" then policy.camera
    else if iface = "org.freedesktop.portal.Realtime" then policy.realtime
    else true
  let list := if identified then methods else unidentified
  ((list.find? fun e => e.1 == iface).filter fun _ => gated).map Prod.snd

/-- Image and sound hints name files by path, which only make sense inside the
sandbox. -/
def stripNotifyPaths (msg : Message) : Verdict :=
  match msg.args with
  | .error _ => .deny "malformed arguments"
  | .ok args =>
      .forward (some (changeArg 6 (fun hints =>
        ((hints.dictRemove "image-path").dictRemove "image_path").dictRemove "sound-file") args))
        none

/-- An option that the policy sets to true whatever the caller asked for, in a
call with the signature `signature` whose options are the argument at `i`. -/
def forceOption (signature : Signature) (i : Nat) (key : String) (file : Option FileRequest)
    (msg : Message) (args : List Value) : Verdict :=
  match args[i]? with
  | some (.dict k v entries) =>
      if msg.signature = signature then
        .forward (some (args.set i ((Value.dict k v entries).dictSet key (.bool true)))) file
      else .deny "malformed arguments"
  | _ => .deny "malformed arguments"

/-- `OpenURI.OpenURI(parent_window, uri, options)`. -/
def checkUri (policy : Policy) (args : List Value) : Verdict :=
  let scheme := uriScheme ((args[1]?.bind Value.asStr).getD "")
  if policy.uriSchemes.contains scheme then forwardAsIs
  else .deny ("opening " ++ debugString scheme ++ " URIs on the host is not allowed")

/-- Sandbox paths mean nothing to the host dialog; the names in `files` are saved
in the folder the user picks. -/
def checkFileChooser (member : String) (args : List Value) : Verdict :=
  let file := if member = "OpenFile" then FileRequest.openFile else FileRequest.saveFile
  let args := changeArg 2 (fun opts =>
    (opts.dictRemove "current_folder").dictRemove "current_file") args
  match args[2]?.bind (Value.dictGet "files") with
  | some files =>
      if plainFileNames files then .forward (some args) (some file)
      else .deny "SaveFiles takes plain file names"
  | none => .forward (some args) (some file)

/-- The arms of `check_portal` for the methods that look at their arguments. -/
def checkArgs (policy : Policy) (msg : Message) (iface member : String) (args : List Value) :
    Verdict :=
  if iface = "org.freedesktop.portal.OpenURI" ∧ member = "OpenURI" then checkUri policy args
  -- Without this the host may take screenshots for a "host app" without asking.
  else if iface = "org.freedesktop.portal.Screenshot" ∧ member = "Screenshot" then
    forceOption "sa{sv}".toList 1 "interactive" (some .screenshot) msg args
  -- The host always asks which app opens the file.
  else if iface = "org.freedesktop.portal.OpenURI" ∧ member = "OpenFile" then
    forceOption "sha{sv}".toList 2 "ask" none msg args
  -- No remembered selections: every screen cast asks.
  else if iface = "org.freedesktop.portal.ScreenCast" ∧ member = "SelectSources" then
    .forward (some (changeArg 1 (fun opts =>
      (opts.dictRemove "persist_mode").dictRemove "restore_token") args)) none
  else if iface = "org.freedesktop.portal.Realtime" then
    if member = "MakeThreadRealtimeWithPID" ∧ msg.signature = "ttu".toList then forwardAsIs
    else if member = "MakeThreadHighPriorityWithPID" ∧ msg.signature = "tti".toList then forwardAsIs
    else .deny "malformed arguments"
  else if iface = "org.freedesktop.portal.FileChooser" ∧
      (member = "OpenFile" ∨ member = "SaveFile" ∨ member = "SaveFiles") then
    checkFileChooser member args
  else forwardAsIs

/-- Reading properties of the portal object. -/
def checkProperties (policy : Policy) (identified : Bool) (msg : Message) (member : String) :
    Verdict :=
  let target := match msg.args with
    | .ok (v :: _) => v.asStr
    | _ => none
  match target with
  | some t =>
      if member = "Get" ∨ member = "GetAll" then
        if (portalMethods policy identified t).isSome then forwardAsIs
        else if !identified then .missing ("no interface " ++ t)
        else .deny "property access not allowed"
      else .deny "property access not allowed"
  | none => .deny "property access not allowed"

/-- Calls on the portal object. -/
def checkPortal (policy : Policy) (identified : Bool) (msg : Message) (iface member : String) :
    Verdict :=
  if iface = "org.freedesktop.DBus.Introspectable" ∧ !identified then .introspect
  else if introspection iface then forwardAsIs
  else if iface = "org.freedesktop.DBus.Properties" then
    checkProperties policy identified msg member
  else
    match portalMethods policy identified iface with
    | none =>
        if !identified then .missing ("no interface " ++ iface)
        else .deny (iface ++ " is not forwarded")
    | some allowed =>
        if !allowed.contains member then .deny (iface ++ "." ++ member ++ " is not forwarded")
        else
          match msg.args with
          | .error _ => .deny "malformed arguments"
          | .ok args => checkArgs policy msg iface member args

/-- Decides what to do with a method call addressed to a gateway name, on a
connection with a portal identity (`identified`) or without. -/
def check (policy : Policy) (identified : Bool) (msg : Message) : Verdict :=
  let dest := msg.destination.getD ""
  let path := msg.path.getD ""
  let iface := msg.interface.getD ""
  let member := msg.member.getD ""
  if dest = portalName ∧ path = portalPath then
    checkPortal policy identified msg iface member
  else if dest = portalName ∧ startsWith path requestPrefix then
    if iface = "org.freedesktop.portal.Request" ∧ member = "Close" then forwardAsIs
    else .deny "only org.freedesktop.portal.Request.Close on request objects"
  else if dest = portalName ∧ startsWith path sessionPrefix then
    if iface = "org.freedesktop.portal.Session" ∧ member = "Close" then forwardAsIs
    else if iface = "org.freedesktop.DBus.Properties" ∧ (member = "Get" ∨ member = "GetAll") then
      forwardAsIs
    else .deny "only org.freedesktop.portal.Session.Close on session objects"
  else if dest = notificationsName ∧ path = notificationsPath then
    if iface = "org.freedesktop.Notifications" ∧ member = "Notify" then stripNotifyPaths msg
    else if iface = "org.freedesktop.Notifications" ∧ notificationsMethods.contains member then
      forwardAsIs
    else if iface = "org.freedesktop.DBus.Properties" ∧ (member = "Get" ∨ member = "GetAll") then
      forwardAsIs
    else if introspection iface then forwardAsIs
    else .deny "interface not allowed"
  else .deny "object not allowed"

/-! ## Section 5: Permissions Only Add -/

/-- The second policy grants everything that the first one does. -/
structure Policy.Le (p q : Policy) : Prop where
  camera : p.camera → q.camera
  realtime : p.realtime → q.realtime
  uriSchemes : ∀ scheme ∈ p.uriSchemes, scheme ∈ q.uriSchemes

/-- What a connection without an identity reaches, one with an identity does. -/
theorem methods_of_unidentified (member : String) {iface : String} {ms : List String}
    (h : (unidentified.find? fun e => e.1 == iface).map Prod.snd = some ms) :
    ∃ ms', (methods.find? fun e => e.1 == iface).map Prod.snd = some ms' ∧
      (ms.contains member → ms'.contains member) := by
  obtain ⟨e, he, rfl⟩ := Option.map_eq_some_iff.mp h
  -- One of the seven interfaces, each of which is in both tables.
  have hmem := List.mem_of_find?_eq_some he
  have hname : e.1 = iface := by simpa using List.find?_some he
  simp only [unidentified, List.mem_cons, List.not_mem_nil, or_false] at hmem
  rcases hmem with rfl | rfl | rfl | rfl | rfl | rfl | rfl
  all_goals
    subst hname
    refine ⟨_, rfl, ?_⟩
    intro hm
    simp only [List.contains_iff_mem, List.mem_cons, List.not_mem_nil, or_false] at hm ⊢ <;> tauto

theorem portalMethods_le {p q : Policy} (hpq : p.Le q) {i j : Bool} (hij : i → j)
    {iface : String} {ms : List String} (h : portalMethods p i iface = some ms) (member : String) :
    ∃ ms', portalMethods q j iface = some ms' ∧ (ms.contains member → ms'.contains member) := by
  unfold portalMethods at h ⊢
  obtain ⟨e, he, rfl⟩ := Option.map_eq_some_iff.mp h
  obtain ⟨hfound, hgate⟩ := Option.filter_eq_some_iff.mp he
  -- The gate of the interface is open for `q` too.
  have hgate' : (if iface = "org.freedesktop.portal.Camera" then q.camera
      else if iface = "org.freedesktop.portal.Realtime" then q.realtime else true) = true := by
    split
    · rename_i hcamera
      rw [if_pos hcamera] at hgate
      exact hpq.camera hgate
    · rename_i hcamera
      rw [if_neg hcamera] at hgate
      split
      · rename_i hrealtime
        rw [if_pos hrealtime] at hgate
        exact hpq.realtime hgate
      · rfl
  have hlist : ∃ e', (if j then methods else unidentified).find? (fun e => e.1 == iface) = some e' ∧
      (e.2.contains member → e'.2.contains member) := by
    cases i with
    | true =>
        rw [hij rfl]
        exact ⟨e, hfound, fun hm => hm⟩
    | false =>
        cases j with
        | false => exact ⟨e, hfound, fun hm => hm⟩
        | true =>
            obtain ⟨ms', hms', hsub⟩ :=
              methods_of_unidentified member (congrArg (Option.map Prod.snd) hfound)
            obtain ⟨e', he', rfl⟩ := Option.map_eq_some_iff.mp hms'
            exact ⟨e', he', hsub⟩
  obtain ⟨e', he', hsub⟩ := hlist
  refine ⟨e'.2, ?_, hsub⟩
  dsimp only
  rw [he', hgate']
  rfl

/-- Only the schemes of links are looked up in the policy. -/
theorem checkArgs_le {p q : Policy} (hpq : p.Le q) {msg : Message} {iface member : String}
    {args : List Value} {args' : Option (List Value)} {file : Option FileRequest}
    (h : checkArgs p msg iface member args = .forward args' file) :
    checkArgs q msg iface member args = .forward args' file := by
  unfold checkArgs at h ⊢
  split at h
  · rename_i huri
    rw [if_pos huri]
    unfold checkUri at h ⊢
    dsimp only at h ⊢
    split at h
    · rename_i hallowed
      rw [if_pos]
      · exact h
      · simpa using hpq.uriSchemes _ (by simpa using hallowed)
    · cases h
  · rename_i huri
    rw [if_neg huri]
    exact h

theorem checkProperties_le {p q : Policy} (hpq : p.Le q) {i j : Bool} (hij : i → j) {msg : Message}
    {member : String} {args : Option (List Value)} {file : Option FileRequest}
    (h : checkProperties p i msg member = .forward args file) :
    checkProperties q j msg member = .forward args file := by
  unfold checkProperties at h ⊢
  dsimp only at h ⊢
  split at h
  · split at h
    · rename_i hget
      rw [if_pos hget]
      split at h
      · rename_i hsome
        obtain ⟨ms, hms⟩ := Option.isSome_iff_exists.mp hsome
        obtain ⟨ms', hms', _⟩ := portalMethods_le hpq hij hms member
        rw [hms']
        exact h
      · split at h <;> cases h
    · cases h
  · cases h

theorem checkPortal_le {p q : Policy} (hpq : p.Le q) {i j : Bool} (hij : i → j) {msg : Message}
    {iface member : String} {args : Option (List Value)} {file : Option FileRequest}
    (h : checkPortal p i msg iface member = .forward args file) :
    checkPortal q j msg iface member = .forward args file := by
  unfold checkPortal at h ⊢
  split at h
  · cases h
  rename_i hintrospect
  have hintrospect' : ¬(iface = "org.freedesktop.DBus.Introspectable" ∧ (!j) = true) := by
    rintro ⟨hiface, hj⟩
    apply hintrospect
    refine ⟨hiface, ?_⟩
    -- Without an identity an introspection is not forwarded.
    cases i with
    | false => rfl
    | true =>
        rw [hij rfl] at hj
        exact hj
  rw [if_neg hintrospect']
  split at h
  · rename_i hobject
    rw [if_pos hobject]
    exact h
  rename_i hobject
  rw [if_neg hobject]
  split at h
  · rename_i hproperties
    rw [if_pos hproperties]
    exact checkProperties_le hpq hij h
  rename_i hproperties
  rw [if_neg hproperties]
  split at h
  · split at h <;> cases h
  rename_i allowed hallowed
  obtain ⟨allowed', hallowed', hsub⟩ := portalMethods_le hpq hij hallowed member
  rw [hallowed']
  dsimp only
  split at h
  · cases h
  rename_i hmember
  rw [if_neg (by simpa using hsub (by simpa using hmember))]
  split at h
  · cases h
  · exact checkArgs_le hpq h

/-- A message that is forwarded with fewer permissions, or without an identity, is
forwarded with more, in the same way. -/
theorem check_le {p q : Policy} (hpq : p.Le q) {i j : Bool} (hij : i → j) {msg : Message}
    {args : Option (List Value)} {file : Option FileRequest}
    (h : check p i msg = .forward args file) : check q j msg = .forward args file := by
  unfold check at h ⊢
  dsimp only at h ⊢
  split at h
  · rename_i hportal
    rw [if_pos hportal]
    exact checkPortal_le hpq hij h
  · rename_i hportal
    rw [if_neg hportal]
    exact h

/-- All settings are read in the same way once the connection has an identity and more is
granted. -/
theorem check_le_example :
    let msg := Message.call portalName portalPath "org.freedesktop.portal.Settings" "ReadAll" []
    let p : Policy := { uriSchemes := ["https"] }
    let q : Policy := { camera := true, uriSchemes := ["https", "mailto"] }
    p.Le q ∧ check p false msg = .forward none none ∧ check q true msg = .forward none none := by
  intro msg p q
  have hpq : p.Le q :=
    { camera := by decide, realtime := by decide, uriSchemes := by decide }
  have h : check p false msg = .forward none none := by rfl
  exact ⟨hpq, h, check_le hpq (by decide) h⟩

end Psbox.Portal
