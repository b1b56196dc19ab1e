import Psbox.DBus.Conn
import Psbox.Portal.Paths
import Psbox.Foundations.Runs

/-!
# One Client of the Gateway

The gateway between a sandbox's private bus and the host bus (`gateway.rs`), for
one client and its host connection, as a state and the steps of the threads that
work on it:

* one serving thread for each connection on the private bus (`serve`), which reads
  the client's calls and passes them on (`forward`), or learns that the client has
  left (`name_changed`);
* the thread that reads the host connection (`serve_host`), which relays replies
  and signals, and passes on the calls held for a `Register` reply (`registered`).

A step is what a thread does between two points at which another thread can come
in: a lock is taken and released within one step. What the environment decides
(what arrives, whether a message can be written, the policy at the moment) is the
action of the step. `log` records what happened, latest first; no step reads it.

A run sends fewer than `2 ^ 32` messages on the host connection; the bus closes a
connection on which the serial 0 comes round again.
-/

namespace Psbox.Gateway

open Psbox.DBus Psbox.Portal Psbox.Foundations

/-! ## Section 1: Calls and Events -/

/-- A connection of the gateway on the private bus. -/
inductive Via where
  | portal
  | talk (i : Nat)
  deriving DecidableEq

/-- A method call read from the client. `id` tells calls apart. -/
structure Call where
  id : Nat
  via : Via
  msg : Message
  fds : List Fd

/-- A call to the portal itself. -/
def Call.toPortal (c : Call) : Bool :=
  c.via == .portal && c.msg.destination == some portalName

/-- A call sent to the host that waits for its reply. -/
structure Pending where
  call : Call
  callerSerial : UInt32
  file : Option FileRequest
  via : Via
  /-- An OpenURI call: the request it returns keeps the host connection open after
  the client leaves. -/
  opens : Bool

/-- Why a call ends without an answer. -/
inductive Unanswered where
  /-- It expects no reply. -/
  | noReply
  /-- The client has left the private bus. -/
  | gone
  /-- The gateway made another host connection for it. -/
  | elsewhere
  deriving DecidableEq

/-- What happened, for the statements about runs. -/
inductive Event where
  | read (c : Call)
  | answered (c : Call) (via : Via) (reply : Message)
  | finished (c : Call) (why : Unanswered)
  /-- Read on the host connection. -/
  | received (a : Arrival)
  | registerSent (serial : Nat) (out : Message)
  /-- A portal instance accepted the client's registration. -/
  | accepted (owner : Option String)
  /-- The client has no identity: its registration failed. -/
  | refused
  | judged (c : Call) (identified : Bool)
  | sent (c : Call) (identified : Bool) (file : Option FileRequest) (serial : Nat) (out : Message)
  /-- A signal passed to the client, with the arguments it was given. -/
  | relayed (source : Message) (args : Except Failure (List Value)) (expose : Expose)
      (out : Message)
  /-- The client was told that the request at a host path has ended. -/
  | requestEnded (path : String) (out : Message)

/-! ## Section 2: States -/

/-- A client's standing with the host portal. -/
structure PortalState where
  /-- The identity registered, while the client has one. -/
  appId : Option String := none
  /-- The unique name of the portal instance that accepted it. -/
  owner : Option String := none
  /-- The serial of a `Register` sent again after the portal changed, until its
  reply. -/
  registering : Option Nat := none
  /-- While the calls held for that reply are passed on. -/
  draining : Bool := false
  /-- Portal calls held until that reply. -/
  held : List Call := []

/-- Where `forward` is with a call. -/
inductive Stage where
  | lookup
  | gate
  | identify (dest : Option String)
  | judge (dest : Option String) (identified : Bool)
  | unlist (identified : Bool) (file : Option FileRequest) (out : Message)
  | send (identified : Bool) (file : Option FileRequest) (out : Message)

/-- Where a serving thread is. -/
inductive Serving where
  | idle
  | forwarding (c : Call) (at_ : Stage)
  /-- The client was taken out of the map; `gone` is not set yet. -/
  | leaving
  /-- Before `close_if_done`. -/
  | left

/-- What follows once requests were ended. -/
inductive AfterRequests where
  | closeIfDone
  | finish

/-- Where the thread that reads the host connection is. -/
inductive Reader where
  | recv
  | received (m : Message) (fds : List Fd)
  /-- A reply to `Register`, before the state is changed. -/
  | registered (m : Message)
  | drain
  | next (rest : List Call)
  | passing (c : Call) (at_ : Stage) (rest : List Call)
  | handBack (c : Call) (rest : List Call)
  | replying (m : Message) (fds : List Fd)
  | relaying (p : Pending) (m : Message) (fds : List Fd)
  | signal (m : Message) (fds : List Fd)
  | deliver (m : Message) (fds : List Fd)
  | endRequests (after : AfterRequests)
  | telling (paths : List String) (after : AfterRequests)
  | closeIfDone
  /-- The host connection has ended. -/
  | closing
  | shutting
  | failPending
  | failing (waiting : List Pending)
  | done

/-- What does not change while a client is served. -/
structure Setup where
  /-- The client's unique name on the private bus. -/
  name : String
  /-- The gateway's own unique name on the private bus. -/
  unique : String
  /-- The names of `dbus.talk`. -/
  talk : Nat → String
  privateSeg : String
  hostSeg : String
  /-- The portal object as a connection without a portal identity sees it. -/
  introspection : String

structure Client where
  /-- The client is on the private bus; no step of the gateway reads this. -/
  present : Bool := true
  /-- The gateway's map has the client. -/
  mapped : Bool := true
  gone : Bool := false
  /-- The next serial of the host connection. -/
  serial : Nat := 1
  /-- The host connection was shut down. -/
  shut : Bool := false
  pending : List (Nat × Pending) := []
  fileRequests : List (String × FileRequest) := []
  openRequests : List String := []
  owners : List (String × String) := []
  portal : PortalState := {}
  serving : Via → Serving := fun _ => .idle
  reader : Reader := .recv
  /-- The number of calls read, which is the next call's `id`. -/
  calls : Nat := 0
  log : List Event := []

/-- What the environment decides in a step of a thread. -/
structure Choice where
  /-- Whether the message could be written to the host connection. -/
  sent : Bool := true
  /-- Whether a host connection is made for a client that is not in the map. -/
  elsewhere : Bool := false
  policy : Policy := {}
  expose : Expose := fun _ _ => none
  /-- The text of an error. -/
  error : String := ""

inductive Action where
  /-- A serving thread reads a message from the client. -/
  | read (via : Via) (a : Arrival)
  /-- The client leaves the private bus. -/
  | depart
  /-- A serving thread reads a `NameOwnerChanged` that says the client has left,
  from any sender: `name_changed` does not look at it. -/
  | leave (via : Via)
  /-- A serving thread takes its next step. -/
  | serve (via : Via) (ch : Choice)
  /-- The reading thread reads a message from the host connection. -/
  | receive (a : Arrival)
  /-- The reading thread meets the end of the host connection. -/
  | close
  /-- The reading thread takes its next step. -/
  | relay (ch : Choice)

namespace Client

/-! ## Section 3: Operations -/

def note (s : Client) (e : Event) : Client :=
  { s with log := e :: s.log }

def setPortal (s : Client) (p : PortalState) : Client :=
  { s with portal := p }

def setReader (s : Client) (r : Reader) : Client :=
  { s with reader := r }

def setServing (s : Client) (via : Via) (t : Serving) : Client :=
  { s with serving := fun v => if v = via then t else s.serving v }

/-- Puts a portal call behind the held ones. -/
def hold (s : Client) (c : Call) : Client :=
  s.setPortal { s.portal with held := s.portal.held ++ [c] }

/-- Answers a call on the private bus, if it expects a reply. -/
def answer (s : Client) (c : Call) (reply : Message) : Client :=
  -- A call that expects no reply still ends here, with nothing sent for it.
  s.note (if c.msg.expectsReply then .answered c c.via reply else .finished c .noReply)

/-- `reply_error`. -/
def replyError (s : Client) (c : Call) (name text : String) : Client :=
  s.answer c (Message.errorTo c.msg name text)

/-- The answer to a call that could not be passed on. -/
def replyFailed (s : Client) (c : Call) (text : String) : Client :=
  s.replyError c "org.freedesktop.DBus.Error.Failed" text

/-- Whether a message can be written to the host connection, or must fail. -/
def canSend (s : Client) (sent : Bool) : Bool :=
  s.serial < 2 ^ 32 && !(sent && s.shut)

/-- The serial goes on with each message, written or not. -/
def tick (s : Client) : Client :=
  { s with serial := s.serial + 1 }

/-- `close_if_done`. -/
def closeIfDone (s : Client) : Client :=
  let done := !(s.pending.any fun e => e.2.opens) && s.openRequests.isEmpty
  if s.gone && done then { s with shut := true } else s

def ownerOf (s : Client) (name : String) : Option String :=
  (s.owners.find? fun e => e.1 == name).map Prod.snd

end Client

/-- A host portal registration of `appId`. -/
def register (appId : String) : Message :=
  Message.call portalName portalPath registryIface "Register"
    [.str appId, .dict ['s'] ['v'] []]

/-- `owner_changed`: applies a `NameOwnerChanged(name, old, new)` to the gateway
names' owners. -/
def ownerChanged (owners : List (String × String)) (args : List Value) : List (String × String) :=
  match args.head?.bind Value.asStr, args[2]?.bind Value.asStr with
  | some name, some new =>
      if !gatewayNames.contains name then owners
      else
        let others := owners.filter fun e => e.1 != name
        -- An empty third argument: the name has no owner now.
        if new = "" then others else (name, new) :: others
  | _, _ => owners

/-! ## Section 4: Passing a Call On -/

/-- What a step of `forward` comes to. -/
inductive Outcome where
  | next (at_ : Stage)
  /-- The call is out of the thread's hands. -/
  | over
  /-- A held call that has to wait again. -/
  | handBack

/-- The message sent to the host for a call. -/
def outgoing (cfg : Setup) (c : Call) (dest : Option String) (args : Option (List Value)) :
    Message :=
  let out : Message :=
    { kind := Kind.methodCall, flags := c.msg.flags, path := c.msg.path,
      interface := c.msg.interface, member := c.msg.member, destination := dest,
      signature := c.msg.signature, body := c.msg.body }
  let out := match args with
    | some args => out.setBody args
    | none => out
  if c.via = .portal then rewritePaths out cfg.privateSeg cfg.hostSeg else out

/-- The policy's verdict on a call. The user listed the `dbus.talk` names: calls
to them pass unchanged. -/
def verdict (c : Call) (policy : Policy) (identified : Bool) : Verdict :=
  match c.via with
  | .portal => check policy identified c.msg
  | .talk _ => .forward none none

/-- The answer to an introspection by a connection without an identity. -/
def introspectionReply (cfg : Setup) (c : Call) : Message :=
  (Message.returnTo c.msg).setBody [.str cfg.introspection]

/-- The portal state is looked at before a call to the portal is judged: behind
held calls it is held, and when the portal that accepted the registration is not
there any more, the client is registered again first. -/
def gate (s : Client) (fromHeld : Bool) (c : Call) (ch : Choice) : Option (Client × Outcome) :=
  -- A call to another object of the host's bus needs no registration.
  if !c.toPortal then some (s, .next (.identify c.msg.destination))
  -- The caller has to keep its place behind the calls that wait already.
  else if !fromHeld && (s.portal.registering.isSome || s.portal.draining) then
    some (s.hold c, .over)
  else
    match s.portal.appId with
    | none => some (s, .next (.identify c.msg.destination))
    -- Without an app id there is nothing to register.
    | some app =>
        if s.portal.owner.isSome && s.portal.owner == s.ownerOf portalName then
          -- The registration is still that of the portal which runs: the call is pinned to it.
          some (s, .next (.identify s.portal.owner))
        else if !s.canSend ch.sent then none
        else if !ch.sent then some (s.tick.replyFailed c ch.error, .over)
        else
          let s' := ((s.tick.setPortal { s.portal with registering := some s.serial }).note
            (.registerSent s.serial (register app)))
          -- A held call goes back to the front of the queue, a new one to its end.
          if fromHeld then some (s', .handBack) else some (s'.hold c, .over)

/-- The verdict on a call, and the answer when it is not forwarded. -/
def judge (cfg : Setup) (s : Client) (c : Call) (dest : Option String) (identified : Bool)
    (policy : Policy) : Client × Outcome :=
  let s := s.note (.judged c identified)
  match verdict c policy identified with
  | .forward args file => (s, .next (.unlist identified file (outgoing cfg c dest args)))
  | .deny why => (s.replyError c "org.freedesktop.DBus.Error.AccessDenied" why, .over)
  | .missing what => (s.replyError c "org.freedesktop.DBus.Error.UnknownInterface" what, .over)
  | .introspect => (s.answer c (introspectionReply cfg c), .over)

/-- A closed request gets no response. -/
def unlist (s : Client) (c : Call) (out : Message) : Client :=
  match out.path with
  | some path =>
      if c.via = .portal ∧ out.isMember "org.freedesktop.portal.Request" "Close" then
        { s with openRequests := s.openRequests.filter (· ≠ path) }
      else s
  | none => s

/-- Sends a call to the host; it is pending by the time its send returns. -/
def sendCall (s : Client) (c : Call) (identified : Bool) (file : Option FileRequest)
    (out : Message) (ch : Choice) : Option (Client × Outcome) :=
  if !s.canSend ch.sent then none
  else if !ch.sent then some (s.tick.replyFailed c ch.error, .over)
  else
    let s' := s.tick.note (.sent c identified file s.serial out)
    if c.msg.expectsReply then
      -- The pending call is recorded under the serial that was just used.
      let p : Pending :=
        { call := c, callerSerial := c.msg.serial, file := file, via := c.via,
          opens := c.via == .portal && c.msg.interface == some openUriIface }
      some ({ s' with pending := (s.serial, p) :: s'.pending }, .over)
    else some (s'.note (.finished c .noReply), .over)

/-- One step of `forward`, for a call that is `fromHeld` or not. -/
def forwardStep (cfg : Setup) (s : Client) (fromHeld : Bool) (c : Call) (st : Stage) (ch : Choice) :
    Option (Client × Outcome) :=
  match st with
  | .lookup =>
      if s.mapped then some (s, .next .gate)
      else if ch.elsewhere then some (s.note (.finished c .elsewhere), .over)
      -- Not in the map any more: a new connection is made for the call, or none can be.
      else some (s.replyFailed c ch.error, .over)
  | .gate => gate s fromHeld c ch
  | .identify dest => some (s, .next (.judge dest s.portal.appId.isSome))
  | .judge dest identified => some (judge cfg s c dest identified ch.policy)
  | .unlist identified file out => some (unlist s c out, .next (.send identified file out))
  | .send identified file out => sendCall s c identified file out ch

/-! ## Section 5: The Serving Threads -/

/-- The service a call read on a connection is for, if any. -/
def serviceOf (cfg : Setup) (via : Via) (m : Message) : Option String :=
  match via with
  | .portal => serviceFor (m.destination.getD "") cfg.unique (m.path.getD "")
  -- Everything this connection receives is for its name.
  | .talk i => some (cfg.talk i)

/-- A serving thread reads a message the client sent. -/
def readStep (cfg : Setup) (s : Client) (via : Via) (a : Arrival) : Option Client :=
  match s.serving via with
  | .idle =>
      let c : Call := { id := s.calls, via := via, msg := a.header, fds := [] }
      let s := { s with calls := s.calls + 1 }
      match a with
      -- An undecodable call is answered before anything looks at what it is for.
      | .undecodable _ =>
          some ((s.note (.read c)).replyError c "org.freedesktop.DBus.Error.InvalidArgs"
            "undecodable message")
      | .message m fds =>
          if m.kind ≠ Kind.methodCall then none
          else
            match serviceOf cfg via m with
            | none =>
                some ((s.note (.read c)).replyError c "org.freedesktop.DBus.Error.UnknownObject"
                  "no such object")
            | some dest =>
                let c := { c with msg := { m with destination := some dest }, fds := fds }
                some ((s.note (.read c)).setServing via (.forwarding c .lookup))
  | _ => none

/-- The client is taken out of the map, when it is still there. -/
def leaveStep (s : Client) (via : Via) : Option Client :=
  match s.serving via with
  | .idle =>
      -- A second `NameOwnerChanged` for the client finds nothing to take out.
      if s.mapped then some ({ s with mapped := false }.setServing via .leaving) else some s
  | _ => none

def serveStep (cfg : Setup) (s : Client) (via : Via) (ch : Choice) : Option Client :=
  match s.serving via with
  | .idle => none
  | .forwarding c st =>
      (forwardStep cfg s false c st ch).bind fun r =>
        match r.2 with
        | .next st' => some (r.1.setServing via (.forwarding c st'))
        | .over => some (r.1.setServing via .idle)
        -- Only a held call is handed back.
        | .handBack => none
  -- `gone` is set in a step of its own, after the map was left: calls can be sent in between.
  | .leaving => some ({ s with gone := true }.setServing via .left)
  | .left => some (s.closeIfDone.setServing via .idle)

/-! ## Section 6: The Reading Thread -/

/-- The error relayed for a reply that cannot be decoded. -/
def undecodableReply (serial : UInt32) : Message :=
  { kind := Kind.error, errorName := some "org.freedesktop.DBus.Error.Failed",
    replySerial := some serial }

/-- A return or an error, which the bus delivers only for a message that was
sent. -/
def isReply (m : Message) : Bool :=
  m.kind == Kind.methodReturn || m.kind == Kind.error

/-- The serial a message replies to. -/
def serialOf (m : Message) : Option Nat :=
  m.replySerial.map UInt32.toNat

/-- The names that the bus sets as the sender of a message: its own, and the unique
names of peers. -/
def senderName (n : String) : Bool :=
  n == busName || startsWith n ":"

/-- What the host bus is relied on for: it sets the sender of a message, and a reply
is to a message that was sent. -/
def fromHostBus (s : Client) (m : Message) : Bool :=
  m.sender.any senderName &&
  (!isReply m || (match serialOf m with
    | some n => n < s.serial
    | none => true))

def receiveStep (s : Client) (a : Arrival) : Option Client :=
  match s.reader with
  | .recv =>
      if !fromHostBus s a.header then none
      else
        let s := s.note (.received a)
        match a with
        | .message m fds => some (s.setReader (.received m fds))
        | .undecodable u =>
            -- The caller of the reply that was lost is told; without a serial nobody is.
            match u.message.replySerial with
            | some n => some (s.setReader (.replying (undecodableReply n) []))
            | none => some (s.setReader .recv)
  | _ => none

def closeStep (s : Client) : Option Client :=
  match s.reader with
  | .recv => some (s.setReader .closing)
  | _ => none

/-- The dispatch of `serve_host` by kind, once `registering` was read. -/
def dispatch (s : Client) (m : Message) (fds : List Fd) (ch : Choice) : Option Client :=
  if isReply m then
    if s.portal.registering.isSome && serialOf m == s.portal.registering then
      some (s.setReader (.registered m))
    else some (s.setReader (.replying m fds))
  else if m.kind = Kind.signal then
    -- Signals of the bus itself are about owners, any other goes to the client.
    if m.sender = some busName then
      match m.args with
      | .ok args =>
          if m.isMember busName "NameOwnerChanged" then
            let s := { s with owners := ownerChanged s.owners args }
            -- A portal that has gone never answers its requests.
            if args.head?.bind Value.asStr = some portalName then
              some (s.setReader (.endRequests .closeIfDone))
            else some (s.setReader .recv)
          else some (s.setReader .recv)
      | .error _ => some (s.setReader .recv)
    else some (s.setReader (.signal m fds))
  -- A call to the gateway is refused, since it offers nothing to the host.
  else if m.expectsReply then
    -- The error is sent on the host connection; a failure is ignored.
    if s.canSend ch.sent then some (s.tick.setReader .recv) else none
  else some (s.setReader .recv)

/-- Handles the reply to a `Register` sent again after the portal changed. -/
def registeredStep (s : Client) (m : Message) : Client :=
  if m.kind = Kind.methodReturn then
    ((s.setPortal { s.portal with registering := none, draining := true, owner := m.sender }).note
      (.accepted m.sender)).setReader .drain
  else
    -- Refused: the client goes on without a portal identity.
    ((s.setPortal { s.portal with
        registering := none, draining := true, appId := none, owner := none }).note
      .refused).setReader .drain

/-- Takes the calls held meanwhile, until none are left. -/
def drainStep (s : Client) : Client :=
  if s.portal.held = [] then
    (s.setPortal { s.portal with draining := false }).setReader .recv
  else (s.setPortal { s.portal with held := [] }).setReader (.next s.portal.held)

/-- The rest wait for the next reply, in order. -/
def handBackStep (s : Client) (c : Call) (rest : List Call) : Client :=
  (s.setPortal { s.portal with held := c :: rest ++ s.portal.held, draining := false }).setReader
    .recv

/-- The request path that a return names. -/
def handleOf (m : Message) : Option String :=
  if m.kind = Kind.methodReturn then
    match m.args with
    | .ok (v :: _) => v.asStr
    | _ => none
  else none

/-- `relay_reply` up to the end of the pending lock. -/
def takePending (s : Client) (m : Message) (fds : List Fd) : Client :=
  match serialOf m with
  | none => s.setReader .recv
  | some n =>
      match s.pending.find? fun e => e.1 == n with
      | none => s.setReader .recv
      | some (_, p) =>
          -- From here on the call is out of `pending`, whatever happens to its reply.
          let s := { s with pending := s.pending.eraseP fun e => e.1 == n }
          let s := match p.file, handleOf m with
            | some kind, some handle =>
                -- The same path may have been used before: the newest call counts.
                { s with fileRequests :=
                    (handle, kind) :: s.fileRequests.filter fun e => e.1 != handle }
            | _, _ => s
          let s := match p.opens, handleOf m with
            | true, some handle => { s with openRequests := handle :: s.openRequests.filter (· ≠ handle) }
            | _, _ => s
          s.setReader (.relaying p m fds)

/-- The reply relayed to the caller of a pending call. -/
def relayedReply (cfg : Setup) (p : Pending) (m : Message) : Message :=
  let out : Message :=
    { kind := m.kind, flags := flagNoReplyExpected, errorName := m.errorName,
      replySerial := some p.callerSerial, destination := some cfg.name,
      signature := m.signature, body := m.body }
  if p.via = .portal then rewritePaths out cfg.hostSeg cfg.privateSeg else out

def relayStep (cfg : Setup) (s : Client) (p : Pending) (m : Message) : Client :=
  if s.gone then (s.note (.finished p.call .gone)).setReader .closeIfDone
  else (s.note (.answered p.call p.via (relayedReply cfg p m))).setReader .recv

/-- Whether the sender owns one of the gateway names on the host. -/
def fromOwner (s : Client) (m : Message) : Bool :=
  match m.sender with
  | some n => s.owners.any fun e => e.2 == n
  | none => false

/-- Only the current owners of the gateway names are passed on; a response ends its
request. -/
def signalStep (s : Client) (m : Message) (fds : List Fd) : Client :=
  if !fromOwner s m || !signalForwarded (m.path.getD "") (m.interface.getD "") then s.setReader .recv
  else
    let s := match m.path with
      | some path =>
          if m.isMember "org.freedesktop.portal.Request" "Response" then
            { s with openRequests := s.openRequests.filter (· ≠ path) }
          else s
      | none => s
    s.setReader (.deliver m fds)

/-- The kind of the file request a response is for, when one is recorded. -/
def fileRequestOf (s : Client) (m : Message) : Option FileRequest :=
  if m.isMember "org.freedesktop.portal.Request" "Response" then
    m.path.bind fun path => (s.fileRequests.find? fun e => e.1 == path).map Prod.snd
  else none

/-- The arguments a signal is passed on with. -/
def relayedArgs (s : Client) (m : Message) (expose : Expose) : Except Failure (List Value) :=
  match fileRequestOf s m with
  | some kind => m.args.map (mapFileResults expose kind)
  | none => m.args

/-- The signal passed to the client. -/
def relayedSignal (cfg : Setup) (s : Client) (m : Message) (expose : Expose) : Message :=
  let out : Message :=
    { kind := Kind.signal, flags := flagNoReplyExpected, path := m.path,
      interface := m.interface, member := m.member, destination := some cfg.name,
      signature := m.signature, body := m.body }
  let out := match fileRequestOf s m, relayedArgs s m expose with
    | some _, .ok args => out.setBody args
    | _, _ => out
  rewritePaths out cfg.hostSeg cfg.privateSeg

/-- Removes the file request a response was for. -/
def takeFileRequest (s : Client) (m : Message) : Client :=
  if m.isMember "org.freedesktop.portal.Request" "Response" then
    { s with fileRequests := s.fileRequests.filter fun e => some e.1 != m.path }
  else s

/-- A client that has left gets nothing more. -/
def deliverStep (cfg : Setup) (s : Client) (m : Message) (expose : Expose) : Client :=
  if s.gone then s.setReader .closeIfDone
  else
    match fileRequestOf s m, relayedArgs s m expose with
    -- `msg.args()?`: the results cannot be mapped.
    | some _, .error _ => (takeFileRequest s m).setReader .recv
    | _, args =>
        ((takeFileRequest s m).note
          (.relayed m args expose (relayedSignal cfg s m expose))).setReader .recv

/-- The `Response` that ends a request, with the code for "ended in some other
way". -/
def endedResponse (cfg : Setup) (path : String) : Message :=
  let out : Message :=
    { kind := Kind.signal, flags := flagNoReplyExpected, path := some path,
      interface := some "org.freedesktop.portal.Request", member := some "Response",
      destination := some cfg.name }
  rewritePaths (out.setBody [.u32 2, .dict ['s'] ['v'] []]) cfg.hostSeg cfg.privateSeg

def afterRequests : AfterRequests → Reader
  | .closeIfDone => .closeIfDone
  | .finish => .done

def tellStep (cfg : Setup) (s : Client) (paths : List String) (after : AfterRequests) : Client :=
  let told := paths.map fun path => Event.requestEnded path (endedResponse cfg path)
  if s.gone then s.setReader (afterRequests after)
  else { s with log := told ++ s.log }.setReader (afterRequests after)

/-- The error for a call that the host connection closed on. -/
def noReply (cfg : Setup) (p : Pending) : Message :=
  let error : Message :=
    { kind := Kind.error, flags := flagNoReplyExpected,
      errorName := some "org.freedesktop.DBus.Error.NoReply",
      replySerial := some p.callerSerial, destination := some cfg.name }
  error.setBody [.str "the host bus connection closed"]

/-- `fail_pending`, once the pending calls were taken. -/
def failStep (cfg : Setup) (s : Client) (waiting : List Pending) : Client :=
  let gone := waiting.map fun p => Event.finished p.call .gone
  let answered := waiting.map fun p => Event.answered p.call p.via (noReply cfg p)
  if s.gone then { s with log := gone ++ s.log }.setReader (.endRequests .finish)
  else { s with log := answered ++ s.log }.setReader (.endRequests .finish)

/-- One step of the thread that reads the host connection, past its reads. -/
def relayerStep (cfg : Setup) (s : Client) (ch : Choice) : Option Client :=
  match s.reader with
  | .recv => none
  | .received m fds => dispatch s m fds ch
  | .registered m => some (registeredStep s m)
  | .drain => some (drainStep s)
  | .next [] => some (s.setReader .drain)
  | .next (c :: rest) => some (s.setReader (.passing c .lookup rest))
  | .passing c st rest =>
      (forwardStep cfg s true c st ch).map fun r =>
        match r.2 with
        | .next st' => r.1.setReader (.passing c st' rest)
        | .over => r.1.setReader (.next rest)
        | .handBack => r.1.setReader (.handBack c rest)
  | .handBack c rest => some (handBackStep s c rest)
  | .replying m fds => some (takePending s m fds)
  | .relaying p m _ => some (relayStep cfg s p m)
  | .signal m fds => some (signalStep s m fds)
  | .deliver m _ => some (deliverStep cfg s m ch.expose)
  | .endRequests after =>
      some ({ s with openRequests := [] }.setReader (.telling s.openRequests after))
  | .telling paths after => some (tellStep cfg s paths after)
  | .closeIfDone => some (s.closeIfDone.setReader .recv)
  | .closing => some ({ s with mapped := false }.setReader .shutting)
  | .shutting => some ({ s with shut := true }.setReader .failPending)
  | .failPending => some ({ s with pending := [] }.setReader (.failing (s.pending.map Prod.snd)))
  | .failing waiting => some (failStep cfg s waiting)
  | .done => none

/-! ## Section 7: The System -/

def step (cfg : Setup) (s : Client) (a : Action) : Option Client :=
  match a with
  | .read via a => readStep cfg s via a
  | .depart => some { s with present := false }
  | .leave via => leaveStep s via
  | .serve via ch => serveStep cfg s via ch
  | .receive a => receiveStep s a
  | .close => closeStep s
  | .relay ch => relayerStep cfg s ch

/-- A client whose host connection was just set up, with the next serial, the
identity and the owners that were found, and what the setup has on record. -/
def initial (serial : Nat) (appId owner : Option String) (owners : List (String × String))
    (log : List Event := []) : Client :=
  { serial := serial, portal := { appId := appId, owner := owner }, owners := owners, log := log }

end Psbox.Gateway
